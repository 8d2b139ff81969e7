import Allgres.Proposals

/-! `fn_submit_result`: a payload for a running task becomes one step. Every step
raises the step count; an exception leaves the state as it was. -/

namespace Allgres

open Raise Rows

inductive Action where
  | finalAnswer | executeSql | callFunction | runProcedure | delegate | searchAgents
  | searchCapabilities | recallMemories | awaitHuman | proposeChange | remember | createAgent
  | proposeFix | awaitChildren | createFunction | updateFunction
  deriving DecidableEq

def Action.names : List (String × Action) :=
  [("final_answer", finalAnswer), ("execute_sql", executeSql), ("call_function", callFunction),
    ("run_procedure", runProcedure), ("delegate", delegate), ("search_agents", searchAgents),
    ("search_capabilities", searchCapabilities), ("recall", recallMemories), ("await_human", awaitHuman),
    ("propose_change", proposeChange), ("remember", remember), ("create_agent", createAgent),
    ("propose_fix", proposeFix), ("await_children", awaitChildren),
    ("create_function", createFunction), ("update_function", updateFunction)]

def actionOf (parsed : Option Json) : Option (Action × Json) := do
  let v ← parsed
  let name ← v.text "action"
  let a ← Action.names.lookup name
  pure (a, v)

def markCapabilitySelected (db : Db) (taskId : Uuid) (type : CapabilityType)
    (name : Option String) : Db :=
  let presented := db.events.filter fun e => e.taskId = some taskId ∧ e.outcome = .presented
  let cap := db.cfg.capabilities.find? fun k =>
    k.capabilityType = type ∧ some k.name = name ∧ k.lifecycle = .published
  match (sortDesc (·.createdAt) presented).head?, cap with
  | some e, some k =>
    let select := fun r : SearchEvent =>
      { r with selectedCapabilityId := some k.capabilityId, outcome := .selected }
    { db with events := update (·.eventId = e.eventId) select db.events }
  | _, _ => db

namespace Turn

def act (pg : Postgres) (T : Turn) : Action → Json → Except Halt Step
  | .finalAnswer, v => orRefuse (T.finalAnswer v)
  | .executeSql, v => orRefuse (T.executeSql pg v)
  | .callFunction, v => orRefuse (T.callFunction v)
  | .runProcedure, v => orRefuse (T.runProcedure v)
  | .delegate, v => T.delegate v
  | .searchAgents, v => orRefuse (T.searchAgents v)
  | .searchCapabilities, v => orRefuse (T.searchCapabilities v)
  | .recallMemories, v => orRefuse (T.recallMemories v)
  | .awaitHuman, v => .ok (T.awaitHuman v)
  | .proposeChange, v => T.proposeChange pg v
  | .remember, v => T.remember pg v
  | .createAgent, v => T.createAgent pg v
  | .proposeFix, v => T.proposeFix pg v
  | .awaitChildren, _ => orRefuse T.awaitChildren
  | .createFunction, v => orRefuse (T.createFunction pg v)
  | .updateFunction, v => T.updateFunction pg v

def refused (T : Turn) (r : Refusal) : Step :=
  { cfg := T.cfg, logs := [(.error, r.content)], result := r.result }

/-- A refusal is a step of its own. -/
def settle (T : Turn) (outcome : Except Halt Step) : Except String Step :=
  match outcome with
  | .ok s => .ok s
  | .error (.refuse r) => .ok (T.refused r)
  | .error (.raise e) => .error e

def parsedReply (payload : Json) : Option Json :=
  match payload.get "parsed" with
  | some (.obj fs) => some (.obj fs)
  | _ => extractFirstJson (payload.text "content")

def unknownAction (parsed : Option Json) : Refusal :=
  { content := .object [("reason", .str "unknown_action"), ("parsed", parsed.getD .null)]
    result := .object [("action", .str "continue"), ("reason", .str "unknown_action")] }

def llmResponse (pg : Postgres) (T : Turn) (payload : Json) : Except String Step := do
  let parsed := parsedReply payload
  let s ← T.settle (match actionOf parsed with
    | none => .error (.refuse (unknownAction parsed))
    | some (a, v) => T.act pg a v)
  let said : LogRole × Json := (.assistant, .str (orEmpty (payload.text "content")))
  pure { s with logs := said :: s.logs }

def errorStep (T : Turn) (payload : Json) : Step :=
  let message := (payload.text "message").getD "error"
  -- the row this step writes is counted too
  let errors := (T.db.logs.filter fun l => l.taskId = T.task.taskId ∧ l.role = .error).length + 1
  let exceeded := T.policy.any fun p => errors > p.maxRetries
  { cfg := T.cfg
    logs := [(.error, .object [("message", .str message)])]
    next := if exceeded then .fail message else .again
    result := if exceeded then
        .object [("action", .str "done"), ("reason", .str "retries_exceeded")]
      else continued }

def resultStep (T : Turn) (role : LogRole) (payload : Json) : Step :=
  T.goOn [(role, (payload.get "content").getD (.object []))] []

def rejectedStep (T : Turn) (payload : Json) : Step :=
  { cfg := T.cfg
    logs := [(.error, .object [("reason", .str "payload_rejected"), ("payload", payload)])]
    logAt := 0
    result := .object [("action", .str "continue"), ("reason", .str "payload_rejected")] }

def payloadStep (pg : Postgres) (T : Turn) (payload : Json) : Except String Step :=
  let type := payload.text "type"
  if type = some "llm_response" then T.llmResponse pg payload
  else if type = some "error" then .ok (T.errorStep payload)
  else if type = some "function_result" then .ok (T.resultStep .function payload)
  else if type = some "procedure_result" then .ok (T.resultStep .procedure payload)
  else .ok (T.rejectedStep payload)

end Turn

namespace Db

def bump (db : Db) (id : Uuid) (now : Time) (f : Task → Task) : Db :=
  db.updateTask id fun t => { f t with stepCount := t.stepCount + 1, updatedAt := now }

def appendLogs (db : Db) (taskId : Uuid) (step : Nat) (logs : List (LogRole × Json))
    (now : Time) : Db :=
  { db with logs := db.logs ++ logs.map fun l => ⟨taskId, step, l.1, l.2, now⟩ }

def setCompacted (db : Db) (cut : Option (Uuid × Option Time)) : Db :=
  match cut with
  | none => db
  | some (id, t) => db.updateSession id fun s => { s with compactedBefore := t }

/-- The rows of a step beside its task. -/
def record (db : Db) (t : Task) (s : Step) (now : Time) : Db :=
  let db := { db with cfg := s.cfg }
  let db := db.appendLogs t.taskId (t.stepCount + s.logAt) s.logs now
  let db := match s.selected with
    | none => db
    | some (type, name) => markCapabilitySelected db t.taskId type name
  db.setCompacted s.compacted

def applyNext (db : Db) (t : Task) (next : Next) (now : Time) : Db :=
  match next with
  | .again => db.bump t.taskId now id
  | .queue req => (db.insertCall t.taskId req now).bump t.taskId now id
  | .delegate child true => (db.insertTask child).bump t.taskId now id
  | .delegate child false =>
    let output := Json.object [("child_task_id", .str (uuidText db.nextId))]
    (db.insertTask child).bump t.taskId now fun r =>
      { r with status := .completed, output := some output }
  | .finalAnswer answer =>
    let output := Json.object [("answer", .str answer)]
    let db := db.bump t.taskId now fun r => { r with status := .completed, output := some output }
    let db := db.updateSession t.sessionId fun s => { s with finalAnswer := some answer }
    db.maybeCompleteSession t.sessionId now
  | .fail error =>
    let db := db.bump t.taskId now fun r => { r with status := .failed, error := some error }
    db.maybeCompleteSession t.sessionId now
  | .awaitHuman reason =>
    (db.bump t.taskId now fun r => { r with status := .waitingHuman }).insertApproval t.taskId
      (.question reason) now (now + dayMillis)
  | .awaitChildren => db.bump t.taskId now fun r => { r with status := .waitingChildren }

/-- End a task without a step. -/
def failTask (db : Db) (t : Task) (error : String) (content : Json) (now : Time) : Db :=
  let db := db.updateTask t.taskId fun r =>
    { r with status := .failed, error := some error, updatedAt := now }
  let db := db.appendLog t.taskId t.stepCount .error content now
  db.maybeCompleteSession t.sessionId now

end Db

def fnSubmitResult (pg : Postgres) (now : Time) (db : Db) (taskId : Uuid) (payload : Json) :
    Except String (Db × Json) :=
  match db.task? taskId with
  | none => .error "fn_submit_result: task not found"
  | some t =>
    if t.status ≠ .running then
      .error ("fn_submit_result: status " ++ t.status.text ++ " is not running")
    else match (db.cfg.agent? t.agentId).filter (·.isActive) with
      | none => .ok (db.failTask t "agent_inactive"
          (.object [("reason", .str "agent_inactive"), ("discarded", .bool true)]) now,
          .object [("action", .str "done"), ("reason", .str "agent_inactive")])
      | some a => do
        let T : Turn := ⟨db, now, t, a, db.cfg.policy? t.agentId⟩
        let s ← T.payloadStep pg payload
        pure ((db.record t s now).applyNext t s.next now, s.result)

end Allgres
