import Allgres.Guard

/-! The four claims hand queued calls to the worker. The credential of an outgoing
call is looked up here and stands only in what is handed out. -/

namespace Allgres

open Raise Rows

def providerSecret (c : Config) (id : Uuid) : Option String :=
  (c.providerSecrets.find? (·.providerId = id)).bind fun s => s.apiKey.or s.accessToken

def oauthClientSecret (c : Config) (id : Uuid) : Option String :=
  (c.providerSecrets.find? (·.providerId = id)).bind (·.oauthClientSecret)

def connectionSecret (c : Config) (id : Uuid) : Option String :=
  (c.connectionSecrets.find? (·.connectionId = id)).bind (·.apiKey)

def AuthKind.text : AuthKind → String
  | authorization => "authorization" | xApiKey => "x-api-key"

/-- What the worker receives for a claimed call. -/
inductive Handed where
  | outbound (callId taskId : Uuid) (kind : OutboundKind) (function : Option String) (url : String)
      (method : Method) (headers body : Json) (allowPrivate : Bool)
  | sql (callId taskId agentId : Uuid) (sql : String) (pgRole : Option String)
  | routine (queue : Queue) (callId taskId : Uuid) (sqlIdent : Option String) (args : Json)
      (pgRole : Option String)

def Handed.callId : Handed → Uuid
  | outbound id _ _ _ _ _ _ _ _ => id
  | sql id _ _ _ _ => id
  | routine _ id _ _ _ _ => id

def credential (kind : AuthKind) (key : String) : Json :=
  .object [(kind.text, .str (if kind = .xApiKey then key else "Bearer " ++ key))]

def providerKey (c : Config) (id : Uuid) (fallback : Option String) : String :=
  let stored := providerSecret c id
  let name := (c.provider? id).map (·.name)
  let key := if nullIfEmpty stored = none ∧ (name = some "xai" ∨ name = some "grok") then
      nullIfEmpty fallback else stored
  (key.or (nullIfEmpty fallback)).getD ""

def claimedHeaders (c : Config) (o : Outbound) (fallback : Option String) : Json :=
  match o.authKind, o.providerId, o.connectionId with
  | some kind, some id, _ => o.requestHeaders.merge (credential kind (providerKey c id fallback))
  | some kind, none, some id =>
    o.requestHeaders.merge (credential kind (orEmpty (connectionSecret c id)))
  | _, _, _ => o.requestHeaders

def pgRoleOf (c : Config) (agentId : Uuid) : Option String :=
  (c.agent? agentId).bind (·.pgRole)

def handOut (c : Config) (fallback : Option String) (q : Call) : Handed :=
  match q.req with
  | .outbound o => .outbound q.callId q.taskId o.kind o.function o.url o.method
      (claimedHeaders c o fallback) o.requestBody o.allowPrivate
  | .sql agentId sql => .sql q.callId q.taskId agentId sql (pgRoleOf c agentId)
  | .function id agentId args => .routine .functionCalls q.callId q.taskId
      ((c.function? id).bind (·.sqlIdent)) args (pgRoleOf c agentId)
  | .procedure id agentId args => .routine .procedureCalls q.callId q.taskId
      ((c.procedure? id).bind (·.sqlIdent)) args (pgRoleOf c agentId)

/-- An expired OAuth token is not sent; the call waits for the refreshed one. -/
def tokenUsable (c : Config) (now : Time) (o : Outbound) : Bool :=
  match o.providerId.bind c.provider? with
  | some p => p.kind != .oauth || c.providerSecrets.any fun s =>
      s.providerId = p.providerId ∧ s.accessToken.isSome ∧ s.expiresAt.all (now + 30000 < ·)
  | none => true

/-- The joins of the four select statements. -/
def claimJoins (c : Config) (now : Time) (req : Request) : Bool :=
  match req with
  | .outbound o => tokenUsable c now o
  | .sql agentId _ => (c.agent? agentId).isSome
  | .function id agentId _ => (c.function? id).isSome && (c.agent? agentId).isSome
  | .procedure id agentId _ => (c.procedure? id).isSome && (c.agent? agentId).isSome

def claimable (db : Db) (now : Time) (queue : Queue) (locked : List Uuid) : List Call :=
  sortBy (·.createdAt) (db.calls.filter fun q =>
    q.req.queue = queue ∧ q.status = .queued ∧ db.running q.taskId ∧ claimJoins db.cfg now q.req ∧
      !locked.contains q.callId)

def claimLimit (limit : Option Int) : Nat :=
  (max 1 (min (limit.getD 4) 16)).toNat

def Db.takeCall (db : Db) (id : Uuid) (now : Time) : Db :=
  db.updateCall id fun c => { c with status := .inFlight, updatedAt := now }

def claimLoop (pg : Postgres) (now : Time) (queue : Queue) (fallback : Option String) :
    List Call → Db → Db × List Handed
  | [], db => (db, [])
  | q :: qs, db =>
    let guarded := guardQueuedCall pg now db queue q.callId
    if guarded.2 then
      let rest := claimLoop pg now queue fallback qs (guarded.1.takeCall q.callId now)
      (rest.1, handOut guarded.1.cfg fallback q :: rest.2)
    else claimLoop pg now queue fallback qs guarded.1

/-- `fn_claim_outbound`, `fn_claim_sql`, `fn_claim_function_calls` and
`fn_claim_procedure_calls`, by queue. -/
def fnClaim (pg : Postgres) (now : Time) (queue : Queue) (limit : Option Int)
    (fallback : Option String) (locked : List Uuid) (db : Db) : Db × List Handed :=
  claimLoop pg now queue fallback ((claimable db now queue locked).take (claimLimit limit)) db

end Allgres
