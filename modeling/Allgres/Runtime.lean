import Allgres.Rows
import Allgres.Schema

/-! Sessions, tasks and the four call queues. The queues are one list of calls;
what a call asks for says which table it belongs to. -/

namespace Allgres

open Rows

inductive SessionStatus where
  | open | completed | failed | cancelled
  deriving DecidableEq

structure Session where
  sessionId : Uuid
  agentId : Uuid
  projectId : Option Uuid := none
  goal : String
  status : SessionStatus := .open
  finalAnswer : Option String := none
  completedAt : Option Time := none
  scheduleId : Option Uuid := none
  compactedBefore : Option Time := none
  deriving DecidableEq

inductive TaskStatus where
  | queued | running | completed | failed | waitingHuman | cancelled | waitingChildren
  deriving DecidableEq

namespace TaskStatus

/-- `completed`, `failed` or `cancelled`. -/
def finished : TaskStatus → Bool
  | completed | failed | cancelled => true
  | _ => false

def text : TaskStatus → String
  | queued => "queued" | running => "running" | completed => "completed" | failed => "failed"
  | waitingHuman => "waiting_human" | cancelled => "cancelled"
  | waitingChildren => "waiting_children"

end TaskStatus

structure Task where
  taskId : Uuid
  sessionId : Uuid
  agentId : Uuid
  parentTaskId : Option Uuid := none
  status : TaskStatus := .queued
  stepCount : Nat := 0
  input : Json := .obj []
  output : Option Json := none
  error : Option String := none
  createdAt : Time := 0
  updatedAt : Time := 0
  startedAt : Option Time := none
  delegationDepth : Nat := 0
  policyGeneration : Option Nat := none
  functionOverrideState : Option Json := none
  deriving DecidableEq

inductive LogRole where
  | system | user | assistant | function | procedure | error | operator
  deriving DecidableEq

structure Log where
  taskId : Uuid
  stepNumber : Nat
  role : LogRole
  content : Json
  createdAt : Time := 0
  deriving DecidableEq

inductive OutboundKind where
  | llm | function | embedding | capabilitySearch | recallMemories | mcp
  deriving DecidableEq

inductive Method where
  | get | post | put | patch | delete
  deriving DecidableEq

structure Outbound where
  kind : OutboundKind
  function : Option String := none
  url : String
  method : Method := .get
  requestHeaders : Json := .obj []
  requestBody : Json := .obj []
  allowPrivate : Bool := false
  connectionId : Option Uuid := none
  providerId : Option Uuid := none
  authKind : Option AuthKind := none
  idempotencyKey : Option String := none
  procedureFunctionId : Option Uuid := none
  procedureId : Option Uuid := none
  experimentId : Option Uuid := none
  deriving DecidableEq

/-- What a row of one of the four queues asks for. -/
inductive Request where
  | outbound (o : Outbound)
  | sql (agentId : Uuid) (sql : String)
  | function (functionId agentId : Uuid) (args : Json)
  | procedure (procedureId agentId : Uuid) (args : Json)
  deriving DecidableEq

inductive Queue where
  | outboundCalls | sqlCalls | functionCalls | procedureCalls
  deriving DecidableEq

def Request.queue : Request → Queue
  | outbound _ => .outboundCalls
  | sql _ _ => .sqlCalls
  | function _ _ _ => .functionCalls
  | procedure _ _ _ => .procedureCalls

def Request.isLlm : Request → Bool
  | outbound o => o.kind = .llm
  | _ => false

namespace CallStatus

def live : CallStatus → Bool
  | queued | inFlight => true
  | _ => false

def text : CallStatus → String
  | queued => "queued" | inFlight => "in_flight" | harvested => "harvested" | lost => "lost"

end CallStatus

inductive Outcome where
  | success | failure
  deriving DecidableEq

structure Call where
  callId : Uuid
  taskId : Uuid
  req : Request
  status : CallStatus := .queued
  createdAt : Time := 0
  updatedAt : Time := 0
  responseStatus : Option Int := none
  responseBody : Option String := none
  error : Option String := none
  outcome : Option Outcome := none
  promptTokens : Option Int := none
  completionTokens : Option Int := none
  costUsd : Option Rat := none
  deriving DecidableEq

/-- The row of a call without its status, times and response. -/
structure CallRequest where
  callId : Uuid
  taskId : Uuid
  req : Request
  outcome : Option Outcome
  promptTokens : Option Int
  completionTokens : Option Int
  costUsd : Option Rat
  deriving DecidableEq

def Call.request (c : Call) : CallRequest :=
  ⟨c.callId, c.taskId, c.req, c.outcome, c.promptTokens, c.completionTokens, c.costUsd⟩

/-- `local_execution_scope`: the routines a local call may run. -/
structure LocalScope where
  procedure : Option Procedure := none
  functions : List Function := []
  deriving DecidableEq

/-- What an execution approval is given for. -/
structure Snapshot where
  request : CallRequest
  policyGeneration : Option Nat
  rules : List ExecutionRule
  functionGeneration : Option Nat
  procedureGeneration : Option Nat
  localScope : LocalScope
  localRules : List ExecutionRule
  connection : Option ApiConnection
  provider : Option Provider
  deriving DecidableEq

structure Gate where
  queue : Queue
  callId : Uuid
  action : Option RuleAction
  resource : Option String
  snapshot : Snapshot
  deriving DecidableEq

/-- The payloads of `human_approvals`: a question of the agent, a call whose
result is unknown, or a queued call held back by a rule. -/
inductive ApprovalPayload where
  | question (reason : String)
  | ambiguous (callId : Uuid) (reason : String)
  | gate (g : Gate)
  deriving DecidableEq

inductive ApprovalStatus where
  | pending | approved | rejected
  deriving DecidableEq

structure Approval where
  approvalId : Uuid
  taskId : Uuid
  status : ApprovalStatus := .pending
  payload : ApprovalPayload
  createdAt : Time := 0
  expiresAt : Option Time := none
  replyText : Option String := none
  decidedAt : Option Time := none
  deriving DecidableEq

inductive EventOutcome where
  | presented | selected | succeeded | failed | rejected
  deriving DecidableEq

/-- `capability_search_events`. -/
structure SearchEvent where
  eventId : Uuid
  taskId : Option Uuid
  requesterAgentId : Option Uuid := none
  queryText : Option String := none
  embeddingModel : Option String := none
  candidates : Json := .arr []
  selectedCapabilityId : Option Uuid := none
  outcome : EventOutcome := .presented
  executionLatencyMs : Option Int := none
  costUsd : Option Rat := none
  createdAt : Time := 0
  deriving DecidableEq

structure LocalContext where
  backendPid : Nat
  transactionId : Nat
  queue : Queue
  callId : Uuid
  taskId : Uuid
  agentId : Uuid
  deriving DecidableEq

structure Db where
  cfg : Config := {}
  sessions : List Session := []
  tasks : List Task := []
  logs : List Log := []
  calls : List Call := []
  approvals : List Approval := []
  events : List SearchEvent := []
  localContexts : List LocalContext := []
  nextId : Uuid := 1

namespace Db

def task? (db : Db) (id : Uuid) : Option Task :=
  db.tasks.find? (·.taskId = id)

def call? (db : Db) (queue : Queue) (id : Uuid) : Option Call :=
  db.calls.find? fun c => c.callId = id ∧ c.req.queue = queue

def session? (db : Db) (id : Uuid) : Option Session :=
  db.sessions.find? (·.sessionId = id)

def updateTask (db : Db) (id : Uuid) (f : Task → Task) : Db :=
  { db with tasks := update (·.taskId = id) f db.tasks }

def updateCall (db : Db) (id : Uuid) (f : Call → Call) : Db :=
  { db with calls := update (·.callId = id) f db.calls }

def updateSession (db : Db) (id : Uuid) (f : Session → Session) : Db :=
  { db with sessions := update (·.sessionId = id) f db.sessions }

def appendLog (db : Db) (taskId : Uuid) (step : Nat) (role : LogRole) (content : Json)
    (now : Time) : Db :=
  { db with logs := db.logs ++ [⟨taskId, step, role, content, now⟩] }

/-- Insert a queued call under a new id. -/
def insertCall (db : Db) (taskId : Uuid) (req : Request) (now : Time) : Db :=
  { db with
    calls := db.calls ++ [{ callId := db.nextId, taskId, req, createdAt := now, updatedAt := now }]
    nextId := db.nextId + 1 }

def insertApproval (db : Db) (taskId : Uuid) (payload : ApprovalPayload) (now : Time)
    (expiresAt : Time) : Db :=
  { db with
    approvals := db.approvals ++
      [⟨db.nextId, taskId, .pending, payload, now, some expiresAt, none, none⟩]
    nextId := db.nextId + 1 }

/-- Insert a task under a new id. -/
def insertTask (db : Db) (t : Task) : Db :=
  { db with tasks := db.tasks ++ [{ t with taskId := db.nextId }], nextId := db.nextId + 1 }

def insertSession (db : Db) (s : Session) : Db :=
  { db with
    sessions := db.sessions ++ [{ s with sessionId := db.nextId }]
    nextId := db.nextId + 1 }

/-- Whether a task is in its `running` state. -/
def running (db : Db) (taskId : Uuid) : Bool :=
  db.tasks.any fun t => t.taskId = taskId ∧ t.status = .running

/-- Whether a task has a queued or claimed row in any of the four queues. -/
def hasLiveCall (db : Db) (taskId : Uuid) : Bool :=
  db.calls.any fun c => c.taskId = taskId ∧ c.status.live

/-- `maybe_complete_session`. -/
def maybeCompleteSession (db : Db) (sessionId : Uuid) (now : Time) : Db :=
  let tasks := db.tasks.filter (·.sessionId = sessionId)
  if tasks.any (!·.status.finished) then db
  else
    let done := tasks.filter fun t => t.status = .completed ∧ t.parentTaskId = none
    let answer := (sortDesc (·.updatedAt) done).head?.bind fun t =>
      t.output.bind fun o => o.text "answer"
    let close := fun s : Session =>
      if tasks.any (·.status = .failed) ∧ answer = none then
        { s with status := .failed, completedAt := some now }
      else
        { s with
          status := .completed
          finalAnswer := answer.or s.finalAnswer
          completedAt := some now }
    let isOpen := fun s : Session => decide (s.sessionId = sessionId ∧ s.status = .open)
    { db with sessions := update isOpen close db.sessions }

end Db

end Allgres
