import Allgres.Complete

/-! `fn_watchdog`: calls the worker never answered, approvals nobody decided, tasks
over their time, and parents whose children are done. -/

namespace Allgres

open Raise Rows

def timeoutMillis (atLeast : Nat) (seconds : Option Int) : Nat :=
  (max (atLeast : Int) (seconds.getD 90)).toNat * 1000

def overdue (now limit updatedAt : Time) : Bool :=
  updatedAt + limit < now

def timeoutOf (queue : Queue) (seconds : Option Int) : Nat :=
  if queue = .procedureCalls then timeoutMillis 150 seconds else timeoutMillis 15 seconds

def timeoutText : Queue → String
  | .outboundCalls => "outbound timeout"
  | .sqlCalls => "sql execution timeout"
  | .functionCalls => "function execution timeout"
  | .procedureCalls => "procedure execution timeout"

def Call.timedOut (c : Call) (now : Time) : Call :=
  match c.req with
  | .outbound o =>
    { c with
      status := .lost
      error := some "timeout"
      outcome := if o.procedureFunctionId.isSome then some .failure else c.outcome
      updatedAt := now }
  | _ => { c with status := .lost, updatedAt := now }

def Call.isMutation (c : Call) : Bool :=
  match c.req with
  | .outbound o => Allgres.isMutation o
  | _ => false

/-- A lost call of a running task is an error of its step, unless it may have had an effect. -/
def reclaimCall (pg : Postgres) (now : Time) (db : Db) (q : Call) : Db :=
  let lost := db.updateCall q.callId (·.timedOut now)
  if lost.running q.taskId then
    if q.isMutation then lost.pauseAmbiguousOutbound q "worker_result_unknown" now
    else submitQuietly pg now lost q.taskId (errorPayload (timeoutText q.req.queue))
  else lost

def overdueCalls (now : Time) (seconds : Option Int) (locked : List Uuid) (queue : Queue)
    (db : Db) : List Call :=
  db.calls.filter fun q => q.req.queue = queue ∧ q.status = .inFlight ∧
    overdue now (timeoutOf queue seconds) q.updatedAt ∧ !locked.contains q.callId

def reclaimQueue (pg : Postgres) (now : Time) (seconds : Option Int) (locked : List Uuid)
    (queue : Queue) (db : Db) : Db :=
  (overdueCalls now seconds locked queue db).foldl (reclaimCall pg now) db

def resetBuilds (pg : Postgres) (now : Time) (seconds : Option Int) (c : Config) : Config :=
  let limit := timeoutMillis 15 seconds
  let stuckF := fun f : Function => decide (f.buildStatus = .building) && overdue now limit f.updatedAt
  let stuckP := fun p : Procedure =>
    decide (p.buildStatus = .building) && overdue now limit p.updatedAt
  let againF := fun f : Function => { f with buildStatus := .pending, updatedAt := now }
  let againP := fun p : Procedure => { p with buildStatus := .pending, updatedAt := now }
  let reset :=
    { c with
      functions := update stuckF againF c.functions
      procedures := update stuckP againP c.procedures }
  if c.functions.any stuckF || c.procedures.any stuckP then syncCapabilityIndex pg now reset
  else reset

/-- The three queues without a task. -/
def reclaimOperatorCalls (now : Time) (seconds : Option Int) (c : Config) : Config :=
  let limit := timeoutMillis 15 seconds
  let stuck := fun (status : CallStatus) (updatedAt : Time) =>
    decide (status = .inFlight) && overdue now limit updatedAt
  { c with
    oauthCalls := update (fun k => stuck k.status k.updatedAt)
      (fun k => { k with status := .lost, updatedAt := now }) c.oauthCalls
    embeddingCalls := update (fun k => stuck k.status k.updatedAt)
      (fun k => { k with status := .lost, updatedAt := now }) c.embeddingCalls
    providerProbes := update (fun k => stuck k.status k.updatedAt)
      (fun k => { k with status := .lost, updatedAt := now }) c.providerProbes }

def expireApproval (now : Time) (db : Db) (a : Approval) : Db :=
  let rejected := db.settleApproval a.approvalId .rejected (some "approval_timeout") now
  match (rejected.task? a.taskId).filter (·.status = .waitingHuman) with
  | none => rejected
  | some t =>
    let logged := rejected.appendLog t.taskId (t.stepCount + 1) .operator
      (.str "No response before the approval expired.") now
    (logged.bump t.taskId now fun r =>
      { r with status := .failed, error := some "approval_timeout" }).maybeCompleteSession
      t.sessionId now

def expiredApprovals (now : Time) (locked : List Uuid) (db : Db) : List Approval :=
  db.approvals.filter fun a => a.status = .pending ∧ a.expiresAt.any (· < now) ∧
    !locked.contains a.approvalId

def overTurn (now : Time) (c : Config) (t : Task) : Bool :=
  occupies t && (c.policy? t.agentId).any fun p =>
    p.maxTurnSeconds.any fun s => t.startedAt.any (overdue now (s * 1000))

def timeoutTurn (now : Time) (db : Db) (t : Task) : Db :=
  let logged := db.appendLog t.taskId (t.stepCount + 1) .error
    (.object [("reason", .str "turn_timeout")]) now
  let failed := logged.bump t.taskId now fun r =>
    { r with status := .failed, error := some "turn_timeout" }
  (failed.loseCalls [.outboundCalls, .sqlCalls] (· = t.taskId) "turn_timeout"
    now).maybeCompleteSession t.sessionId now

def childrenDone (db : Db) (t : Task) : Bool :=
  t.status = .waitingChildren &&
    db.tasks.all fun c => !(c.parentTaskId = some t.taskId) || c.status.finished

def childReport (c : Config) (t : Task) : Option Json :=
  (c.agent? t.agentId).map fun a => .object [("agent", .str a.name), ("status", .str t.status.text),
    ("output", t.output.getD .null), ("error", .ofText t.error)]

def wakeParent (now : Time) (db : Db) (t : Task) : Db :=
  let children := sortBy (·.createdAt) (db.tasks.filter (·.parentTaskId = some t.taskId))
  let results := Json.arr (children.filterMap (childReport db.cfg))
  (db.appendLog t.taskId (t.stepCount + 1) .function (.object [("delegate_results", results)])
    now).bump t.taskId now fun r => { r with status := .queued }

def dropExpiredMemories (now : Time) (c : Config) : Config :=
  { c with memories := c.memories.filter fun m => !m.expiresAt.any (· < now) }

namespace Db

def onConfig (db : Db) (f : Config → Config) : Db :=
  { db with cfg := f db.cfg }

def expireApprovals (db : Db) (now : Time) (locked : List Uuid) : Db :=
  (expiredApprovals now locked db).foldl (expireApproval now) db

def timeoutTurns (db : Db) (now : Time) (locked : List Uuid) : Db :=
  (db.tasks.filter fun t => overTurn now db.cfg t ∧ !locked.contains t.taskId).foldl
    (timeoutTurn now) db

def wakeParents (db : Db) (now : Time) (locked : List Uuid) : Db :=
  (db.tasks.filter fun t => childrenDone db t ∧ !locked.contains t.taskId).foldl
    (wakeParent now) db

end Db

def fnWatchdog (pg : Postgres) (now : Time) (seconds : Option Int) (locked : List Uuid)
    (db : Db) : Db :=
  let db := reclaimQueue pg now seconds locked .outboundCalls db
  let db := reclaimQueue pg now seconds locked .sqlCalls db
  let db := reclaimQueue pg now seconds locked .functionCalls db
  let db := reclaimQueue pg now seconds locked .procedureCalls db
  let db := db.onConfig fun c => reclaimOperatorCalls now seconds (resetBuilds pg now seconds c)
  let db := db.expireApprovals now locked
  let db := db.timeoutTurns now locked
  let db := db.wakeParents now locked
  db.onConfig (dropExpiredMemories now)

end Allgres
