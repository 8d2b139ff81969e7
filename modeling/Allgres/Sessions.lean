import Allgres.Submit

/-! What operators do with sessions: start and continue one, decide an approval,
cancel. -/

namespace Allgres

open Raise Rows

def Db.startTask (db : Db) (sessionId agentId : Uuid) (goal : String) (now : Time) : Db :=
  let task : Task :=
    { taskId := 0
      sessionId
      agentId
      input := .object [("goal", .str goal)]
      createdAt := now
      updatedAt := now
      policyGeneration := (db.cfg.policy? agentId).map (·.generation) }
  (db.insertTask task).appendLog db.nextId 0 .user (.str goal) now

def Config.agentActive (c : Config) (agentId : Uuid) : Bool :=
  c.agents.any fun a => a.agentId = agentId ∧ a.isActive

/-- Answers with the new session and its first task. -/
def fnCreateSession (now : Time) (db : Db) (agentId : Uuid) (goal : Option String)
    (projectId scheduleId : Option Uuid) : Except String (Db × Uuid × Uuid) := do
  let goal := btrim (orEmpty goal)
  raiseIf (goal = "") "goal required"
  raiseIf (db.cfg.agentActive agentId = false) "agent inactive or missing"
  raiseIf (projectId.any (fun id =>
    !db.cfg.projects.any fun p => p.projectId = id ∧ p.isActive) = true)
    "project inactive or missing"
  let opened := db.insertSession { sessionId := 0, agentId, projectId, goal, scheduleId }
  pure (opened.startTask db.nextId agentId goal now, db.nextId, opened.nextId)

def unfinished (t : Task) : Bool :=
  !t.status.finished

def fnContinueSession (now : Time) (db : Db) (sessionId : Uuid) (message : Option String) :
    Except String (Db × Uuid) := do
  let message := btrim (orEmpty message)
  raiseIf (message = "") "message required"
  match db.session? sessionId with
  | none => .error "session not found"
  | some s =>
    raiseIf (db.cfg.agentActive s.agentId = false) "agent inactive or missing"
    raiseIf (db.tasks.any (fun t =>
      t.sessionId = sessionId ∧ t.parentTaskId = none ∧ unfinished t) = true)
      "this session has a turn still in progress -- wait for it to finish before sending another message"
    let reopened := db.updateSession sessionId fun s =>
      { s with status := .open, completedAt := none }
    pure (reopened.startTask sessionId s.agentId message now, db.nextId)

namespace Db

def approval? (db : Db) (id : Uuid) : Option Approval :=
  db.approvals.find? (·.approvalId = id)

def settleApproval (db : Db) (id : Uuid) (status : ApprovalStatus) (reply : Option String)
    (now : Time) : Db :=
  let settle := fun a : Approval =>
    { a with status, replyText := reply, decidedAt := some now }
  { db with approvals := update (·.approvalId = id) settle db.approvals }

end Db

def ApprovalPayload.isGate : ApprovalPayload → Bool
  | gate _ => true
  | _ => false

/-- Whether the row was written by an execution rule decides where the task resumes. -/
def resumeStatus (p : ApprovalPayload) : TaskStatus :=
  if p.isGate then .running else .queued

def fnDecideApproval (now : Time) (db : Db) (approvalId : Uuid) (accept : Bool)
    (reply : Option String) : Except String (Db × Json) :=
  match (db.approval? approvalId).filter (·.status = .pending) with
  | none => .error "approval not pending"
  | some v =>
    if v.expiresAt.any (· ≤ now) then .error "approval expired"
    else
      let decided := db.settleApproval approvalId (if accept then .approved else .rejected) reply now
      match (db.task? v.taskId).filter (·.status = .waitingHuman) with
      | none => .ok (decided, .object [("ok", .bool true), ("task_updated", .bool false)])
      | some t =>
        let said := (trimmed reply).getD (if accept then "Approved." else "Rejected.")
        let logged := decided.appendLog t.taskId (t.stepCount + 1) .operator (.str said) now
        let moved := if accept then
            logged.bump t.taskId now fun r => { r with status := resumeStatus v.payload }
          else
            (logged.bump t.taskId now fun r =>
              { r with status := .failed, error := some "human_rejected" }).maybeCompleteSession
              t.sessionId now
        .ok (moved, .object [("ok", .bool true), ("task_updated", .bool true)])

def Call.lose (c : Call) (error : String) (now : Time) : Call :=
  { c with
    status := .lost
    error := if c.req.queue = .outboundCalls then some error else c.error
    updatedAt := now }

namespace Db

def inSession (db : Db) (sessionId taskId : Uuid) : Bool :=
  db.tasks.any fun t => t.taskId = taskId ∧ t.sessionId = sessionId

/-- Only the outgoing and the SQL calls of a cancelled session are taken back. -/
def loseCalls (db : Db) (queues : List Queue) (own : Uuid → Bool) (error : String)
    (now : Time) : Db :=
  let hit := fun c : Call => decide (c.req.queue ∈ queues ∧ own c.taskId ∧ c.status.live)
  { db with calls := update hit (·.lose error now) db.calls }

def cancelTask (now : Time) (reason : String) (db : Db) (t : Task) : Db :=
  (db.appendLog t.taskId (t.stepCount + 1) .operator (.str reason) now).bump t.taskId now
    fun r => { r with status := .cancelled, error := some "operator_cancelled" }

end Db

def fnCancelSession (now : Time) (db : Db) (sessionId : Uuid) (reason : Option String) :
    Except String (Db × Nat) := do
  raiseIf (db.session? sessionId = none) "session not found"
  let said := (trimmed reason).getD "Cancelled by operator."
  let open' := db.tasks.filter fun t => t.sessionId = sessionId ∧ unfinished t
  let cancelled := open'.foldl (Db.cancelTask now said) db
  let lost := cancelled.loseCalls [.outboundCalls, .sqlCalls] (db.inSession sessionId)
    "session_cancelled" now
  let hit := fun a : Approval => decide (db.inSession sessionId a.taskId ∧ a.status = .pending)
  let reject := fun a : Approval =>
    { a with status := .rejected, replyText := some "session_cancelled", decidedAt := some now }
  let isOpen := fun s : Session => decide (s.sessionId = sessionId ∧ s.status = .open)
  let close := fun s : Session => { s with status := .cancelled, completedAt := some now }
  pure ({ lost with
    approvals := update hit reject lost.approvals
    sessions := update isOpen close lost.sessions }, open'.length)

end Allgres
