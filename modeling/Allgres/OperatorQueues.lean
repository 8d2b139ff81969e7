import Allgres.Claim
import Allgres.Runs

/-! The three queues without a task: embeddings, probes of a provider and OAuth calls. A
row stores the URL of its request when it is queued; the secret is looked up when the row
is claimed. -/

namespace Allgres

open Raise Rows Runs

section Providers

/-- The arguments of `fn_set_provider`, none where a column is kept. -/
structure ProviderChange where
  baseUrl : Option String := none
  enabled : Option Bool := none
  allowPrivateNetwork : Option Bool := none
  oauthAuthUrl : Option String := none
  oauthTokenUrl : Option String := none
  oauthClientId : Option String := none
  oauthClientSecret : Option String := none
  embeddingModel : Option String := none
  responseFormatJsonObject : Option Bool := none

def upsertSecret (c : Config) (id : Uuid) (change : ProviderSecret → ProviderSecret) : Config :=
  if c.providerSecrets.any (·.providerId = id) then
    { c with providerSecrets := update (·.providerId = id) change c.providerSecrets }
  else { c with providerSecrets := c.providerSecrets ++ [change { providerId := id }] }

def fnSetProviderSecret (c : Config) (id : Uuid) (apiKey : Option String) : Except String Config := do
  raiseIf (c.provider? id = none)
    ("insert or update on table \"llm_secrets\" violates foreign key constraint " ++
      "\"llm_secrets_provider_id_fkey\"")
  pure (upsertSecret c id fun s => { s with apiKey := (nullIfEmpty apiKey).or s.apiKey })

def refuseUrl (word : String) (url : Option String) (allow : Bool) (tail : String := "") :
    Except String Unit :=
  match checkOutboundUrl url allow with
  | some reason => .error (word ++ " rejected: " ++ reason ++ tail)
  | none => .ok ()

def fnSetProvider (c : Config) (id : Uuid) (ch : ProviderChange) : Except String Config := do
  match c.provider? id with
  | none => .error "provider not found"
  | some p =>
    let allow := ch.allowPrivateNetwork.getD p.allowPrivateNetwork
    let url := rtrim ((nullIfEmpty ch.baseUrl).getD p.baseUrl) '/'
    refuseUrl "provider endpoint" (some url) allow (" (" ++ url ++ ")")
    if (nullIfEmpty ch.oauthAuthUrl).isSome then
      refuseUrl "oauth auth url" ch.oauthAuthUrl allow
    if (nullIfEmpty ch.oauthTokenUrl).isSome then
      refuseUrl "oauth token url" ch.oauthTokenUrl allow
    let row : Provider :=
      { p with
        baseUrl := url
        isEnabled := ch.enabled.getD p.isEnabled
        allowPrivateNetwork := allow
        oauthAuthUrl := ch.oauthAuthUrl.or p.oauthAuthUrl
        oauthTokenUrl := ch.oauthTokenUrl.or p.oauthTokenUrl
        oauthClientId := ch.oauthClientId.or p.oauthClientId
        embeddingModel := (trimmed ch.embeddingModel).or p.embeddingModel
        responseFormatJsonObject := ch.responseFormatJsonObject.getD p.responseFormatJsonObject }
    let c' := { c with providers := update (·.providerId = id) (fun _ => row) c.providers }
    match nullIfEmpty ch.oauthClientSecret with
    | some secret => pure (upsertSecret c' id fun s => { s with oauthClientSecret := some secret })
    | none => pure c'

/-- No function edits this column. -/
def setDeviceUrl (c : Config) (id : Uuid) (url : Option String) : Config :=
  { c with
    providers := update (·.providerId = id) (fun p => { p with oauthDeviceUrl := url }) c.providers }

end Providers

section Queueing

def CallStatus.unfinished : CallStatus → Bool
  | queued => true
  | inFlight => true
  | _ => false

def probeUrl (p : Provider) : String :=
  rtrim p.baseUrl '/' ++ (if p.kind = .anthropic then "/v1/models" else "/models")

def fnProviderProbeStart (now : Time) (c : Config) (id : Uuid) : Except String Config := do
  match c.provider? id with
  | none => .error "provider not found"
  | some p =>
    refuseUrl "provider endpoint" (some (probeUrl p)) p.allowPrivateNetwork
    let superseded := update (fun r => r.providerId = id ∧ r.status.unfinished)
      (fun r => { r with status := .lost, updatedAt := now }) c.providerProbes
    let row : ProviderProbe :=
      { callId := c.nextId
        providerId := id
        url := probeUrl p
        requestHeaders := if p.kind = .anthropic then
            .object [("anthropic-version", .str "2023-06-01")] else .obj []
        allowPrivate := p.allowPrivateNetwork
        createdAt := now
        updatedAt := now }
    pure { c with providerProbes := superseded ++ [row], nextId := c.nextId + 1 }

def acceptJson : Json :=
  .object [("accept", .str "application/json")]

/-- Append a row to `oauth_calls`. -/
def insertOauthCall (c : Config) (row : OauthCall) : Config :=
  { c with
    oauthCalls := c.oauthCalls ++ [{ row with callId := c.nextId }]
    nextId := c.nextId + 1 }

def activeSession (d : OauthDeviceSession) : Bool :=
  d.status = .starting || d.status = .awaitingUser

def fnOauthDeviceStart (now : Time) (c : Config) (id : Uuid) : Except String Config := do
  match c.provider? id with
  | none => .error "provider is not device-code oauth"
  | some p =>
    raiseIf (p.kind ≠ .oauth ∨ p.oauthFlow ≠ .deviceCode) "provider is not device-code oauth"
    match p.oauthDeviceUrl, p.oauthTokenUrl, p.oauthClientId with
    | some url, some _, some client =>
      refuseUrl "oauth device url" (some url) p.allowPrivateNetwork
      let old := fun d : OauthDeviceSession => decide (d.providerId = id) && activeSession d
      let oldIds := (c.oauthDeviceSessions.filter old).map (·.sessionId)
      let calls := update
        (fun r => r.deviceSessionId.any oldIds.contains && r.status.unfinished)
        (fun r => { r with status := .harvested, updatedAt := now }) c.oauthCalls
      let sessions := update old (fun d => { d with status := .expired }) c.oauthDeviceSessions
      let session : OauthDeviceSession := { sessionId := c.nextId, providerId := id }
      let c' :=
        { c with
          oauthCalls := calls
          oauthDeviceSessions := sessions ++ [session]
          nextId := c.nextId + 1 }
      let scope := (p.oauthScope.map fun s => ("scope", Json.str s)).toList
      pure (insertOauthCall c'
        { callId := 0
          providerId := id
          state := uuidText session.sessionId
          url
          requestHeaders := acceptJson
          requestBody := .object (("client_id", .str client) :: scope)
          allowPrivate := p.allowPrivateNetwork
          operation := .deviceAuthorization
          deviceSessionId := some session.sessionId
          createdAt := now
          updatedAt := now })
    | _, _, _ => .error "device url / token url / client id missing"

def fnOauthTokenRequest (now : Time) (c : Config) (state : String) (code redirect : Option String) :
    Except String Config := do
  match c.oauthStates.find? (·.state = state) with
  | none => .error "unknown oauth state"
  | some st =>
    match c.provider? st.providerId with
    | none => .error "oauth token url / client id missing"
    | some p =>
      match p.oauthTokenUrl, p.oauthClientId with
      | some url, some client =>
        refuseUrl "oauth token url" (some url) p.allowPrivateNetwork
        let c' := { c with oauthStates := c.oauthStates.filter (·.state ≠ state) }
        pure (insertOauthCall c'
          { callId := 0
            providerId := st.providerId
            state
            url
            requestHeaders := .object [("content-type", .str "application/x-www-form-urlencoded"),
              ("accept", .str "application/json")]
            requestBody := .object [("grant_type", .str "authorization_code"),
              ("code", .ofText code), ("redirect_uri", .ofText redirect), ("client_id", .str client)]
            allowPrivate := p.allowPrivateNetwork
            createdAt := now
            updatedAt := now })
      | _, _ => .error "oauth token url / client id missing"

end Queueing

section Maintenance

variable (now : Time)

def pollDue (d : OauthDeviceSession) : Bool :=
  d.status = .awaitingUser && d.expiresAt.any (now < ·) && d.nextPollAt.all (· ≤ now)

def polling (c : Config) (id : Uuid) : Bool :=
  c.oauthCalls.any fun r => r.deviceSessionId = some id ∧ r.operation = .devicePoll ∧
    r.status.unfinished

/-- The sessions to poll, each with its provider. -/
def duePolls (c : Config) : List (OauthDeviceSession × Provider) :=
  c.oauthDeviceSessions.filterMap fun d =>
    if pollDue now d && !polling c d.sessionId then (c.provider? d.providerId).map (d, ·) else none

def pollCall (d : OauthDeviceSession) (p : Provider) (url : String) : OauthCall :=
  { callId := 0
    providerId := p.providerId
    state := uuidText d.sessionId
    url
    requestHeaders := acceptJson
    requestBody := .object [
      ("grant_type", .str "urn:ietf:params:oauth:grant-type:device_code"),
      ("client_id", .ofText p.oauthClientId)]
    allowPrivate := p.allowPrivateNetwork
    operation := .devicePoll
    deviceSessionId := some d.sessionId
    createdAt := now
    updatedAt := now }

def expiring (c : Config) (id : Uuid) : Bool :=
  (c.providerSecrets.find? (·.providerId = id)).any fun s =>
    s.refreshToken.isSome && s.expiresAt.any (· ≤ now + 120000)

def refreshing (c : Config) (id : Uuid) : Bool :=
  c.oauthCalls.any fun r => r.providerId = id ∧ r.operation = .refresh ∧
    (r.status.unfinished ∨ now < r.createdAt + 30000)

/-- The providers whose access token is to be renewed. -/
def dueRefreshes (c : Config) : List Provider :=
  c.providers.filter fun p => p.kind = .oauth ∧ p.isEnabled ∧ expiring now c p.providerId ∧
    !refreshing now c p.providerId

def refreshCall (p : Provider) (state url : String) : OauthCall :=
  { callId := 0
    providerId := p.providerId
    state
    url
    requestHeaders := acceptJson
    requestBody := .object [("grant_type", .str "refresh_token"),
      ("client_id", .ofText p.oauthClientId)]
    allowPrivate := p.allowPrivateNetwork
    operation := .refresh
    createdAt := now
    updatedAt := now }

/-- One `INSERT .. SELECT` of calls to the token endpoint, which must not be null. -/
def insertTokenCalls : List (Provider × (Uuid → String → OauthCall)) → Config → Except String Config
  | [], c => .ok c
  | (p, row) :: rest, c => match p.oauthTokenUrl with
    | none => .error ("null value in column \"url\" of relation \"oauth_calls\" " ++
        "violates not-null constraint")
    | some url => insertTokenCalls rest (insertOauthCall c (row c.nextId url))

def queueOauthMaintenance (c : Config) : Except String Config := do
  let expired := update (fun d => d.status = .awaitingUser ∧ d.expiresAt.any (· ≤ now))
    (fun d => { d with status := .expired }) c.oauthDeviceSessions
  let c := { c with oauthDeviceSessions := expired }
  let polls := (duePolls now c).map fun dp => (dp.2, fun (_ : Uuid) url => pollCall now dp.1 dp.2 url)
  let c ← insertTokenCalls polls c
  let later := update (pollDue now)
    (fun d => { d with nextPollAt := some (now + d.intervalSeconds * 1000) }) c.oauthDeviceSessions
  let c := { c with oauthDeviceSessions := later }
  insertTokenCalls ((dueRefreshes now c).map fun p =>
    (p, fun id url => refreshCall now p (uuidHex id) url)) c

end Maintenance

/-- The endpoint of a provider that a row was queued for. -/
inductive Endpoint where
  | base | token | device
  deriving DecidableEq

def Endpoint.url (p : Provider) : Endpoint → Option String
  | base => some p.baseUrl
  | token => p.oauthTokenUrl
  | device => p.oauthDeviceUrl

def OauthOperation.endpoint : OauthOperation → Endpoint
  | deviceAuthorization => .device
  | _ => .token

/-- A row of the three queues. -/
structure OperatorRow where
  providerId : Uuid
  endpoint : Endpoint
  url : String

/-- The request a claim makes of a row, and whether a secret was put into it. -/
structure OperatorRequest where
  row : OperatorRow
  callId : Uuid
  url : String
  headers : Json
  body : Json := .null
  allowPrivate : Bool
  injected : Bool

section Claims

variable (now : Time) (limit : Option Int) (locked : List Uuid)

def EmbeddingCall.row (r : EmbeddingCall) : OperatorRow :=
  ⟨r.providerId, .base, r.url⟩

def ProviderProbe.row (r : ProviderProbe) : OperatorRow :=
  ⟨r.providerId, .base, r.url⟩

def OauthCall.row (r : OauthCall) : OperatorRow :=
  ⟨r.providerId, r.operation.endpoint, r.url⟩

def embeddingRequest (c : Config) (r : EmbeddingCall) : OperatorRequest :=
  let key := providerSecret c r.providerId
  { row := r.row
    callId := r.callId
    url := r.url
    headers := r.requestHeaders.merge (credential .authorization (orEmpty key))
    body := r.requestBody
    allowPrivate := r.allowPrivate
    injected := key.isSome }

def pickedEmbeddings (c : Config) : List EmbeddingCall :=
  (sortBy (·.createdAt) (c.embeddingCalls.filter fun r => r.status = .queued ∧
    !locked.contains r.callId)).take (claimLimit limit)

def fnClaimAgentEmbedding (c : Config) : Config × List OperatorRequest :=
  let picked := pickedEmbeddings limit locked c
  let taken := update (fun r => (picked.map (·.callId)).contains r.callId)
    (fun r => { r with status := .inFlight, updatedAt := now }) c.embeddingCalls
  ({ c with embeddingCalls := taken },
    picked.map (embeddingRequest c))

def probeRequest (c : Config) (r : ProviderProbe) : OperatorRequest :=
  let key := providerSecret c r.providerId
  let kind := if (c.provider? r.providerId).any (·.kind = .anthropic) then
      AuthKind.xApiKey else .authorization
  { row := r.row
    callId := r.callId
    url := r.url
    headers := r.requestHeaders.merge (credential kind (orEmpty key))
    allowPrivate := r.allowPrivate
    injected := key.isSome }

def pickedProbes (c : Config) : List ProviderProbe :=
  (sortBy (·.createdAt) (c.providerProbes.filter fun r => r.status = .queued ∧
    (c.provider? r.providerId).isSome ∧ !locked.contains r.callId)).take (claimLimit limit)

def fnClaimProviderProbe (c : Config) : Config × List OperatorRequest :=
  let picked := pickedProbes limit locked c
  let taken := update (fun r => (picked.map (·.callId)).contains r.callId)
    (fun r => { r with status := .inFlight, updatedAt := now }) c.providerProbes
  ({ c with providerProbes := taken },
    picked.map (probeRequest c))

/-- What a claim adds to the body of a call, by its operation. -/
def sensitiveFields (c : Config) (r : OauthCall) : List (String × Json) :=
  match r.operation with
  | .devicePoll =>
    let code := (r.deviceSessionId.bind fun id =>
      c.oauthDeviceSessions.find? (·.sessionId = id)).bind (·.deviceCode)
    [("device_code", .str (orEmpty code))]
  | .refresh =>
    let token := (c.providerSecrets.find? (·.providerId = r.providerId)).bind (·.refreshToken)
    [("refresh_token", .str (orEmpty token))]
  | _ => []

def clientSecretField (c : Config) (r : OauthCall) : List (String × Json) :=
  ((nullIfEmpty (oauthClientSecret c r.providerId)).map fun s => ("client_secret", Json.str s)).toList

def oauthRequest (c : Config) (r : OauthCall) : OperatorRequest :=
  let fields := clientSecretField c r ++ sensitiveFields c r
  { row := r.row
    callId := r.callId
    url := r.url
    headers := r.requestHeaders
    body := r.requestBody.merge (.object fields)
    allowPrivate := r.allowPrivate
    injected := fields != [] }

def pickedOauth (c : Config) : List OauthCall :=
  (sortBy (·.createdAt) (c.oauthCalls.filter fun r => r.status = .queued ∧
    !locked.contains r.callId)).take (claimLimit limit)

def fnClaimOauth (c : Config) : Except String (Config × List OperatorRequest) := do
  let c ← queueOauthMaintenance now c
  let picked := pickedOauth limit locked c
  let taken := update (fun r => (picked.map (·.callId)).contains r.callId)
    (fun r => { r with status := .inFlight, updatedAt := now }) c.oauthCalls
  pure ({ c with oauthCalls := taken },
    picked.map (oauthRequest c))

end Claims

/-- What the completions, the watchdog and the start of a login write: secrets, sessions and
states, and the rows that are over. -/
structure Settlement where
  providerSecrets : List ProviderSecret
  oauthDeviceSessions : List OauthDeviceSession
  oauthStates : List OauthState
  harvested : List Uuid := []
  lost : List Uuid := []

namespace Settlement

def status (st : Settlement) (id : Uuid) (s : CallStatus) : CallStatus :=
  if st.harvested.contains id then .harvested else if st.lost.contains id then .lost else s

def apply (st : Settlement) (c : Config) : Config :=
  { c with
    providerSecrets := st.providerSecrets
    oauthDeviceSessions := st.oauthDeviceSessions
    oauthStates := st.oauthStates
    embeddingCalls := c.embeddingCalls.map fun r => { r with status := st.status r.callId r.status }
    providerProbes := c.providerProbes.map fun r => { r with status := st.status r.callId r.status }
    oauthCalls := c.oauthCalls.map fun r => { r with status := st.status r.callId r.status } }

end Settlement

inductive OperatorOp where
  | setProvider (id : Uuid) (change : ProviderChange)
  | setProviderSecret (id : Uuid) (apiKey : Option String)
  | setDeviceUrl (id : Uuid) (url : Option String)
  | queueEmbedding (target : EmbeddingTarget) (input : Option String)
  | probeStart (id : Uuid)
  | deviceStart (id : Uuid)
  | tokenRequest (state : String) (code redirect : Option String)
  | claimEmbedding (limit : Option Int) (locked : List Uuid)
  | claimProbe (limit : Option Int) (locked : List Uuid)
  | claimOauth (limit : Option Int) (locked : List Uuid)
  | settle (st : Settlement)

structure OperatorEvent where
  now : Time
  op : OperatorOp

def performOperator (c : Config) (e : OperatorEvent) : Except String (Config × List OperatorRequest) :=
  match e.op with
  | .setProvider id change => (fnSetProvider c id change).map (·, [])
  | .setProviderSecret id apiKey => (fnSetProviderSecret c id apiKey).map (·, [])
  | .setDeviceUrl id url => .ok (setDeviceUrl c id url, [])
  | .queueEmbedding target input => .ok (queueEmbedding c target input e.now, [])
  | .probeStart id => (fnProviderProbeStart e.now c id).map (·, [])
  | .deviceStart id => (fnOauthDeviceStart e.now c id).map (·, [])
  | .tokenRequest state code redirect => (fnOauthTokenRequest e.now c state code redirect).map (·, [])
  | .claimEmbedding limit locked => .ok (fnClaimAgentEmbedding e.now limit locked c)
  | .claimProbe limit locked => .ok (fnClaimProviderProbe e.now limit locked c)
  | .claimOauth limit locked => fnClaimOauth e.now limit locked c
  | .settle st => .ok (st.apply c, [])

def operatorStep (c : Config) (e : OperatorEvent) : Config :=
  match performOperator c e with
  | .ok r => r.1
  | .error _ => c

/-- The requests that leave with an event. -/
def sentRequests (c : Config) (e : OperatorEvent) : List OperatorRequest :=
  match performOperator c e with
  | .ok r => r.2
  | .error _ => []

end Allgres
