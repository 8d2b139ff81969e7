import Allgres.NextStep

/-! `guard_queued_call`: before a queued call is handed out, the permissions, rules
and definitions it was queued under are checked again, and an approval is asked for
where a rule wants one. -/

namespace Allgres

open Raise Rows

def RuleAction.text : RuleAction → String
  | callFunction => "call_function" | executeSql => "execute_sql" | runProcedure => "run_procedure"

/-- `jsonb_agg(.. ORDER BY action, resource)`. -/
def sortRules (rules : List ExecutionRule) : List ExecutionRule :=
  rules.insertionSort fun a b => a.action.text < b.action.text ∨
    (a.action = b.action ∧ a.resource ≤ b.resource)

def localExecutionScope (c : Config) (req : Request) : LocalScope :=
  match req with
  | .procedure id _ _ =>
    { procedure := c.procedure? id
      functions := sortBy (·.functionId) (c.functions.filter fun f =>
        c.bindings.any fun b => b.procedureId = id ∧ b.functionId = f.functionId) }
  | .function id _ _ => { functions := sortBy (·.functionId) (c.functions.filter (·.functionId = id)) }
  | _ => {}

def ruleAction (req : Request) : Option RuleAction :=
  match req with
  | .sql _ _ => some .executeSql
  | .procedure _ _ _ => some .runProcedure
  | .function _ _ _ => some .callFunction
  | .outbound o => if o.kind = .function ∨ o.kind = .mcp then some .callFunction else none

def guardedFunction (c : Config) (req : Request) : Option Function :=
  match req with
  | .function id _ _ => c.function? id
  | .outbound o =>
    if o.kind = .function ∨ o.kind = .mcp then o.procedureFunctionId.bind c.function? else none
  | _ => none

def ruleResource (c : Config) (req : Request) : Option String :=
  match req with
  | .sql _ _ => some "*"
  | .procedure id _ _ => (c.procedure? id).map (·.name)
  | .function _ _ _ => (guardedFunction c req).map (·.name)
  | .outbound o => ((guardedFunction c req).map (·.name)).or o.function

/-- The procedure through which an agent without a grant of its own may call a function. -/
def grantingProcedure (c : Config) (agentId : Uuid) (f : Option Function)
    (only : Option Uuid) : Option Procedure :=
  (sortBy (·.procedureId) (c.procedures.filter fun p =>
    (c.bindings.any fun b => b.procedureId = p.procedureId ∧ some b.functionId = f.map (·.functionId)) ∧
      p.isActive ∧ agentHasPermission c agentId .procedure (some p.name) ∧
      only.all (· = p.procedureId))).head?

def guardedProcedure (c : Config) (agentId : Uuid) (req : Request) : Option Procedure :=
  let granted := fun only => if agentHasPermission c agentId .function (ruleResource c req) then none
    else grantingProcedure c agentId (guardedFunction c req) only
  match req with
  | .procedure id _ _ => c.procedure? id
  | .function _ _ _ => granted none
  | .outbound o => if o.kind = .function ∨ o.kind = .mcp then granted o.procedureId else none
  | _ => none

def connectionIntact (conn : ApiConnection) (o : Outbound) : Bool :=
  conn.isEnabled && (o.url = conn.baseUrl || startsWith o.url (rtrim conn.baseUrl '/' ++ "/")) &&
    decide (o.authKind = conn.authKind) && (!o.allowPrivate || conn.allowPrivateNetwork)

def providerIntact (p : Provider) (o : Outbound) : Bool :=
  p.isEnabled && startsWith o.url (rtrim p.baseUrl '/' ++ "/") &&
    (!o.allowPrivate || p.allowPrivateNetwork)

def reasonIf (p : Bool) (reason : String) : Option String :=
  if p then some reason else none

/-- Only a PL/pgSQL function has to be built. -/
def functionUnavailable (req : Request) (f : Function) : Bool :=
  !f.isActive || (decide (req.queue = .functionCalls) && f.buildStatus != .built)

def functionReasons (c : Config) (agentId : Uuid) (req : Request) : List (Option String) :=
  let pr := guardedProcedure c agentId req
  [reasonIf (!agentHasPermission c agentId .function (ruleResource c req) && pr.isNone)
      "function_not_permitted",
    reasonIf ((guardedFunction c req).any (functionUnavailable req)) "function_unavailable",
    match req with
    | .outbound o => reasonIf
        (pr.isNone && !agentHasPermission c agentId .httpHost (urlHost (some o.url)))
        "http_host_not_permitted"
    | _ => none]

def outboundReasons (c : Config) (o : Outbound) : List (Option String) :=
  [o.connectionId.bind fun id => reasonIf (!(c.connection? id).any (connectionIntact · o))
      "connection_changed_or_disabled",
    o.providerId.bind fun id => reasonIf (!(c.provider? id).any (providerIntact · o))
      "provider_changed_or_disabled"]

def requestReasons (pg : Postgres) (c : Config) (agentId : Uuid) (req : Request) :
    List (Option String) :=
  match req with
  | .sql _ sql => [match fnValidateSql pg c agentId (some sql) with
      | .ok _ => none
      | .error e => some ("sql_permission_revoked: " ++ e)]
  | .procedure id _ _ => [reasonIf (!(c.procedure? id).any fun p =>
      p.isActive && decide (p.buildStatus = .built) &&
        agentHasPermission c agentId .procedure (some p.name)) "procedure_not_permitted"]
  | .function _ _ _ => functionReasons c agentId req
  | .outbound o => (if o.kind = .function ∨ o.kind = .mcp then functionReasons c agentId req
      else []) ++ outboundReasons c o

def matchesResource (resource : Option String) (r : ExecutionRule) : Bool :=
  r.resource = "*" || some r.resource = resource

/-- The rules a queued call falls under: on its own resource, and for a procedure
also those on the functions bound to it. -/
def guardRules (c : Config) (agentId : Uuid) (req : Request) : List ExecutionRule :=
  let scope := localExecutionScope c req
  sortRules (c.rules.filter fun r => r.agentId = agentId ∧
    ((some r.action = ruleAction req ∧ matchesResource (ruleResource c req) r) ∨
      (req.queue = .procedureCalls ∧ r.action = .callFunction ∧
        scope.functions.any fun f => matchesResource (some f.name) r)))

/-- A later reason replaces an earlier one. -/
def guardReason (pg : Postgres) (c : Config) (agentId : Uuid) (req : Request) : Option String :=
  let inactive := reasonIf (!(c.agent? agentId).any (·.isActive)) "agent_inactive"
  let denied := reasonIf ((guardRules c agentId req).any (·.decision = .deny)) "execution_denied"
  (inactive :: requestReasons pg c agentId req ++ [denied]).reverse.findSome? id

def localRules (c : Config) (agentId : Uuid) : List ExecutionRule :=
  sortRules (c.rules.filter (·.agentId = agentId))

def callSnapshot (c : Config) (agentId : Uuid) (q : Call) : Snapshot :=
  { request := q.request
    policyGeneration := (c.policy? agentId).map (·.generation)
    rules := guardRules c agentId q.req
    functionGeneration := (guardedFunction c q.req).map (·.generation)
    procedureGeneration := (guardedProcedure c agentId q.req).map (·.generation)
    localScope := localExecutionScope c q.req
    localRules := localRules c agentId
    connection := match q.req with
      | .outbound o => o.connectionId.bind c.connection?
      | _ => none
    provider := match q.req with
      | .outbound o => o.providerId.bind c.provider?
      | _ => none }

def Approval.gate? (a : Approval) : Option Gate :=
  match a.payload with
  | .gate g => some g
  | _ => none

def isApprovalOf (taskId : Uuid) (queue : Queue) (callId : Uuid) (a : Approval) : Bool :=
  a.taskId = taskId && a.gate?.any fun g => g.queue = queue && g.callId = callId

/-- `ORDER BY created_at DESC, approval_id DESC LIMIT 1`. -/
def latestApproval (db : Db) (taskId : Uuid) (queue : Queue) (callId : Uuid) : Option Approval :=
  ((db.approvals.filter (isApprovalOf taskId queue callId)).insertionSort fun a b =>
    b.createdAt < a.createdAt ∨ (a.createdAt = b.createdAt ∧ b.approvalId ≤ a.approvalId)).head?

def approves (now : Time) (snapshot : Snapshot) (a : Approval) : Bool :=
  a.status = .approved && a.expiresAt.any (now < ·) &&
    a.gate?.any fun g => decide (g.snapshot = snapshot)

def Queue.text : Queue → String
  | outboundCalls => "outbound_calls" | sqlCalls => "sql_calls"
  | functionCalls => "function_calls" | procedureCalls => "procedure_calls"

namespace Db

def denyCall (db : Db) (t : Task) (q : Call) (reason : String) (now : Time) : Db :=
  (db.updateCall q.callId fun c => { c with status := .lost, updatedAt := now }).failTask t reason
    (.object [("reason", .str reason), ("queue", .str q.req.queue.text),
      ("call_id", .str (uuidText q.callId))]) now

/-- The earlier approval of a call no longer counts. -/
def supersede (db : Db) (previous : Option Approval) (now : Time) : Db :=
  match previous with
  | none => db
  | some a => db.settleApproval a.approvalId .rejected
      (some "Execution approval expired or request/policy changed.") now

def requestApproval (db : Db) (t : Task) (q : Call) (previous : Option Approval) (now : Time) :
    Db :=
  let gate : Gate :=
    { queue := q.req.queue
      callId := q.callId
      action := ruleAction q.req
      resource := ruleResource db.cfg q.req
      snapshot := callSnapshot db.cfg t.agentId q }
  ((db.supersede previous now).insertApproval t.taskId (.gate gate) now
    (now + dayMillis)).updateTask t.taskId fun r =>
      { r with status := .waitingHuman, updatedAt := now }

end Db

def needsApproval (db : Db) (t : Task) (q : Call) : Bool :=
  (guardRules db.cfg t.agentId q.req).any (·.decision = .approve) ||
    (latestApproval db t.taskId q.req.queue q.callId).isSome

/-- Whether a queued call may be handed out now. -/
def guardQueuedCall (pg : Postgres) (now : Time) (db : Db) (queue : Queue) (callId : Uuid) :
    Db × Bool :=
  match (db.call? queue callId).filter (·.status = .queued) with
  | none => (db, false)
  | some q => match (db.task? q.taskId).filter (·.status = .running) with
    | none => (db, false)
    | some t => match guardReason pg db.cfg t.agentId q.req with
      | some reason => (db.denyCall t q reason now, false)
      | none =>
        let approval := latestApproval db t.taskId queue callId
        if !needsApproval db t q then (db, true)
        else if approval.any (approves now (callSnapshot db.cfg t.agentId q)) then (db, true)
        else (db.requestApproval t q approval now, false)

end Allgres
