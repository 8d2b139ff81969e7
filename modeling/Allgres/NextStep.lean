import Allgres.Sessions

/-! `fn_next_step` opens a turn of a task and assembles the request to its model;
`fn_dispatch_tasks` does that for every task that may go on. -/

namespace Allgres

open Raise Rows

/-- A cast that raises the way the server does. -/
def castOrRaise {α : Type} (cast : String → Option α) (type : String) (s : Option String) :
    Except String (Option α) :=
  match s with
  | none => .ok none
  | some t => match cast t with
    | some v => .ok (some v)
    | none => .error ("invalid input syntax for type " ++ type ++ ": \"" ++ t ++ "\"")

def LogRole.text : LogRole → String
  | system => "system" | user => "user" | assistant => "assistant" | function => "function"
  | procedure => "procedure" | error => "error" | operator => "operator"

def logContentText (v : Json) : String :=
  match v with
  | .str s => s
  | v => v.render

def compactorOf (c : Config) : Option (Agent × Policy) :=
  (c.agents.filter (·.name = "session_compactor")).head?.bind fun a =>
    (c.policy? a.agentId).map fun p => (a, p)

def sinceCut (cut : Option Time) (l : Log) : Bool :=
  cut.all (· ≤ l.createdAt)

def compactionGoal (sessionId : Uuid) : String :=
  "session_compact:" ++ uuidText sessionId

/-- The instant before which the rows go into the summary. -/
def compactionCut (keepRecent : Int) (rows : List Log) (now : Time) : Option Time :=
  if keepRecent ≤ 0 then some now
  else ((sortDesc (·.createdAt) rows)[keepRecent.toNat - 1]?).map (·.createdAt)

def summaryOf (c : Config) (agentId sessionId : Uuid) : Option String :=
  (sortDesc (·.createdAt) (c.memories.filter fun m =>
    m.agentId = agentId ∧ m.subjectId = some (uuidText sessionId))).head?.map (·.content)

def queueCompaction (pg : Postgres) (now : Time) (db : Db) (agent : Agent) (sessionId : Uuid)
    (before : Option Time) (rows : List Log) (cut : Time) : Except String Db := do
  let turns := (sortBy (·.createdAt) (rows.filter (·.createdAt < cut))).map fun l =>
    Json.object [("role", .str l.role.text), ("content", l.content)]
  let summary := before.bind fun _ => summaryOf db.cfg agent.agentId sessionId
  let (created, _, taskId) ← fnCreateSession now db agent.agentId (compactionGoal sessionId)
    none none
  let input := Json.object [("target_session_id", .str (uuidText sessionId)),
    ("compact_cutoff", .str (pg.timestampText cut))]
  let asked := created.updateTask taskId fun t => { t with input }
  pure (asked.appendLog taskId 1 .user (.object [("target_session_id", .str (uuidText sessionId)),
    ("previous_summary", .ofText summary), ("turns", .arr turns)]) now)

def maybeTriggerCompaction (pg : Postgres) (now : Time) (db : Db) (sessionId : Uuid)
    (taskIds : List Uuid) : Except String Db := do
  match compactorOf db.cfg with
  | none => pure db
  | some (agent, policy) =>
    if !agent.isActive ∨ nullIfEmpty (policy.llmConfig.text "provider") = none ∨
        nullIfEmpty (policy.llmConfig.text "model") = none then pure db
    else
      let threshold ← castOrRaise castInt "integer" (agent.agentConfig.text "compaction_threshold")
      let keep ← castOrRaise castInt "integer" (agent.agentConfig.text "compaction_keep_recent")
      let before := (db.session? sessionId).bind (·.compactedBefore)
      let rows := db.logs.filter fun l => taskIds.contains l.taskId ∧ sinceCut before l
      let pending := db.sessions.any fun s =>
        s.goal = compactionGoal sessionId ∧ s.status = .open
      if (rows.length : Int) ≤ threshold.getD 60 ∨ pending then pure db
      else match compactionCut (keep.getD 10) rows now with
        | none => pure db
        | some cut => queueCompaction pg now db agent sessionId before rows cut

def agentEffectivePrompt (c : Config) (agentId : Uuid) : Option String :=
  let prompts := (agentChain c agentId).reverse.filterMap fun a =>
    (c.policy? a.agentId).map (·.systemPrompt)
  if prompts = [] then none else some ("\n\n---\n\n".intercalate prompts)

def recalledMemories (c : Config) (agentId : Uuid) (now : Time) : List Memory :=
  (rankedMemories (c.memories.filter fun m =>
    m.agentId = agentId ∧ m.expiresAt.all (now < ·))).take 15

def touchMemories (c : Config) (ms : List Memory) (now : Time) : Config :=
  let hit := fun m : Memory => ms.any (·.memoryId = m.memoryId)
  { c with memories := update hit (fun m => { m with lastAccessedAt := some now }) c.memories }

def textList (xs : List String) : List Json :=
  xs.map .str

def grantedProcedures (c : Config) (agentId : Uuid) : List Procedure :=
  (c.procedures.filter fun p => p.isActive ∧
    (agentPermissionRefs c agentId .procedure).contains p.name).insertionSort
    fun p q => p.name ≤ q.name

def functionBounds (c : Config) (agentId : Uuid) : List Json :=
  let bound := (grantedProcedures c agentId).flatMap fun p =>
    (c.bindings.filter (·.procedureId = p.procedureId)).filterMap fun b =>
      (c.function? b.functionId).bind fun f =>
        if f.isActive ∧ f.buildStatus ≠ .failed then some (p, f) else none
  let sorted := bound.insertionSort fun x y => x.2.name ≤ y.2.name
  textList (agentPermissionRefs c agentId .function) ++ sorted.map fun b =>
    .object [("name", .str b.2.name), ("description", .str b.2.description),
      ("handler", .str b.2.handler.text),
      ("args", if b.2.handler = .plpgsql then b.2.paramSchema else b.2.argsTemplate),
      ("procedure", .str b.1.name)]

def message (role : String) (content : Option String) : Json :=
  .object [("role", .str role), ("content", .ofText content)]

def systemPrompt (pg : Postgres) (db : Db) (t : Task) (memories : List Memory) : Option String :=
  (agentEffectivePrompt db.cfg t.agentId).map fun prompt =>
    let preset := ((db.session? t.sessionId).bind (·.projectId)).bind fun id =>
      (db.cfg.projects.find? (·.projectId = id)).bind (·.presetPrompt)
    let recalled := memories.map fun m =>
      Json.object [("type", .str m.memoryType), ("content", .str (left m.content 500))]
    let procedures := (grantedProcedures db.cfg t.agentId).map fun p =>
      Json.object [("name", .str p.name), ("content", .str p.content)]
    prompt ++ orEmpty (preset.map ("\n\n# project preset\n" ++ ·)) ++
      "\n\n# bounds (authoritative, from the database)\nviews: " ++
      (Json.arr (textList (agentPermissionRefs db.cfg t.agentId .view))).render ++
      "\nfunctions: " ++ (Json.arr (functionBounds db.cfg t.agentId)).render ++ pg.actionsText ++
      (if recalled = [] then ""
        else "\n\n# memory (your own past recollections, most important first)\n" ++
          (Json.arr recalled).render) ++
      (if procedures = [] then ""
        else "\n\n# procedures (reusable, curated by an operator -- follow these when they apply)\n" ++
          (Json.arr procedures).render)

def logMessage (l : Log) : Json :=
  match l.role with
  | .error => message "user" (some ("Previous step error: " ++ logContentText l.content ++
      ". Reply with a valid action JSON."))
  | .function | .procedure | .operator => message "user" (some (logContentText l.content))
  | role => message role.text (some (logContentText l.content))

def inputText (t : Task) : String :=
  ((t.input.text "goal").or (t.input.text "text")).getD t.input.render

def turnTasks (db : Db) (t : Task) : List Uuid :=
  if t.parentTaskId = none then
    (db.tasks.filter fun u => u.sessionId = t.sessionId ∧ u.parentTaskId = none).map (·.taskId)
  else [t.taskId]

def summaryMessage (db : Db) (t : Task) : List Json :=
  let text := ((db.session? t.sessionId).bind (·.compactedBefore)).bind fun _ =>
    (compactorOf db.cfg).bind fun a => summaryOf db.cfg a.1.agentId t.sessionId
  match text with
  | none => []
  | some s => [message "system" (some ("# earlier in this conversation, summarized\n" ++ s))]

def turnMessages (pg : Postgres) (db : Db) (t : Task) (memories : List Memory) : List Json :=
  let before := (db.session? t.sessionId).bind (·.compactedBefore)
  let rows := db.logs.filter fun l => (turnTasks db t).contains l.taskId ∧ sinceCut before l
  let rows := rows.insertionSort fun a b => a.createdAt < b.createdAt ∨
    (a.createdAt = b.createdAt ∧ a.stepNumber ≤ b.stepNumber)
  let asked := db.logs.any fun l => l.taskId = t.taskId ∧ l.role = .user
  let input := if asked ∨ inputText t = "" ∨ inputText t = "\x7b\x7d" then []
    else [message "user" (some (inputText t))]
  message "system" (systemPrompt pg db t memories) :: summaryMessage db t ++
    rows.map logMessage ++ input

/-- What the last function result of a task says about the model of its next turn. -/
structure Override where
  functionId : Option Uuid := none
  procedureId : Option Uuid := none
  experimentId : Option Uuid := none
  effective : Option Json := none
  freeze : Option Json := none

/-- The last row that is no part of a failed attempt. -/
def lastLog (db : Db) (t : Task) : Option Log :=
  let rows := db.logs.filter (·.taskId = t.taskId)
  let failed := (rows.filter (·.role = .error)).map (·.stepNumber)
  let rows := rows.filter fun l => !failed.contains l.stepNumber
  (rows.insertionSort fun a b => b.stepNumber < a.stepNumber ∨
    (a.stepNumber = b.stepNumber ∧ b.createdAt ≤ a.createdAt)).head?

def liveOverride (c : Config) (roll : Rat) (functionId : Uuid) (procedureId : Option Uuid) :
    Override :=
  let own := (c.function? functionId).bind (·.llmOverride)
  let proc := (procedureId.bind c.procedure?).bind (·.llmOverride)
  let canary := (c.experiments.find? fun e =>
    e.functionId = functionId ∧ e.status = .running).filter fun e => roll < e.canaryPercent
  let effective := match canary with
    | some e => some (Json.object [("provider", .str e.candidateProvider),
        ("model", .str e.candidateModel)])
    | none => own.or proc
  let experimentId := canary.map (·.experimentId)
  let frozen := Json.object [("procedure_function_id", .str (uuidText functionId)),
    ("experiment_id", .ofText (experimentId.map uuidText))]
  { functionId := some functionId
    procedureId
    experimentId
    effective
    freeze := some (frozen.merge (effective.getD (.object []))) }

def frozenOverride (state : Json) (functionId : Uuid) (procedureId : Option Uuid) :
    Except String Override := do
  let experimentId ← castOrRaise castUuid "uuid" (nullIfEmpty (state.text "experiment_id"))
  pure
    { functionId := some functionId
      procedureId
      experimentId
      effective := if state.has "provider" then
          some (.object [("provider", .ofText (state.text "provider")),
            ("model", .ofText (state.text "model"))])
        else none }

def resolveOverride (db : Db) (t : Task) (roll : Rat) : Except String Override := do
  match (lastLog db t).filter (·.role = .function) with
  | none => pure {}
  | some l =>
    let functionId ← castOrRaise castUuid "uuid"
      (nullIfEmpty (l.content.text "procedure_function_id"))
    let procedureId ← castOrRaise castUuid "uuid" (nullIfEmpty (l.content.text "procedure_id"))
    let retry := db.logs.any fun r =>
      r.taskId = t.taskId ∧ r.role = .error ∧ l.stepNumber < r.stepNumber
    match functionId, if retry then t.functionOverrideState else none with
    | none, _ => pure { procedureId }
    | some f, none => pure (liveOverride db.cfg roll f procedureId)
    | some f, some state =>
      let frozen ← castOrRaise castUuid "uuid" (state.text "procedure_function_id")
      if frozen = some f then frozenOverride state f procedureId
      else pure (liveOverride db.cfg roll f procedureId)

def turnConfig (db : Db) (t : Task) (p : Policy) (o : Override) : Json :=
  let owner := (db.cfg.chatOwners.find? (·.sessionId = t.sessionId)).map (·.userId)
  let pref := db.cfg.userPreferences.find? fun u =>
    u.agentId = t.agentId ∧ some u.userId = owner
  let cfg := p.llmConfig.merge ((pref.map (·.llmConfig)).getD (.object []))
  sanitizeLlmConfig (match o.effective with
    | none => cfg
    | some v => cfg.merge (.object [("provider", .ofText (v.text "provider")),
        ("model", .ofText (v.text "model"))]))

/-- The request `fn_next_step` asks for. -/
structure LlmSpec where
  taskId : Uuid
  agentId : Uuid
  sessionId : Uuid
  step : Nat
  messages : List Json
  llmConfig : Json
  procedureFunctionId : Option Uuid
  procedureId : Option Uuid
  experimentId : Option Uuid
  views : List String
  functions : List Json
  maxSteps : Nat

inductive NextAction where
  | done (reason : String)
  | callLlm (spec : LlmSpec)

def Db.startTurn (db : Db) (t : Task) (now : Time) : Db :=
  if t.status = .queued then
    db.updateTask t.taskId fun r =>
      { r with status := .running, startedAt := r.startedAt.or (some now), updatedAt := now }
  else db

def Db.freezeOverride (db : Db) (t : Task) (freeze : Option Json) : Db :=
  match freeze with
  | none => db
  | some state => db.updateTask t.taskId fun r => { r with functionOverrideState := some state }

/-- The part of `fn_next_step` behind its guards. -/
def openTurn (pg : Postgres) (now : Time) (roll : Rat) (db : Db) (t : Task) (p : Policy) :
    Except String (Db × NextAction) := do
  let memories := recalledMemories db.cfg t.agentId now
  let db := { db with cfg := touchMemories db.cfg memories now }
  let db ← if t.parentTaskId = none then
      maybeTriggerCompaction pg now db t.sessionId (turnTasks db t)
    else pure db
  let o ← resolveOverride db t roll
  let db := db.freezeOverride t o.freeze
  pure (db, .callLlm
    { taskId := t.taskId
      agentId := t.agentId
      sessionId := t.sessionId
      step := t.stepCount + 1
      messages := turnMessages pg db t memories
      llmConfig := turnConfig db t p o
      procedureFunctionId := o.functionId
      procedureId := o.procedureId
      experimentId := o.experimentId
      views := agentPermissionRefs db.cfg t.agentId .view
      functions := functionBounds db.cfg t.agentId
      maxSteps := p.maxSteps })

def fnNextStep (pg : Postgres) (now : Time) (roll : Rat) (db : Db) (taskId : Uuid) :
    Except String (Db × NextAction) :=
  match db.task? taskId with
  | none => .error "fn_next_step: task not found"
  | some t =>
    if t.status ≠ .queued ∧ t.status ≠ .running then
      .error ("fn_next_step: status " ++ t.status.text ++ " not runnable")
    else
      let db := db.startTurn t now
      match (db.cfg.agent? t.agentId).filter (·.isActive), db.cfg.policy? t.agentId with
      | none, _ => .ok (db.failTask t "agent_inactive"
          (.object [("reason", .str "agent_inactive")]) now, .done "agent_inactive")
      | some _, none => .error "fn_next_step: policy missing"
      | some _, some p =>
        if t.stepCount ≥ p.maxSteps then
          .ok (db.failTask t "max_steps" (.object [("reason", .str "max_steps"),
            ("max_steps", .ofInt p.maxSteps)]) now, .done "max_steps")
        else openTurn pg now roll db t p

/-- The system texts of an Anthropic request; one absent text makes the whole absent. -/
def systemText (messages : List Json) : Option String :=
  (messages.filter fun m => m.text "role" = some "system").foldl (fun acc m =>
    acc.bind fun s => (m.text "content").map fun c => s ++ (if s = "" then "" else "\n") ++ c)
    (some "")

def chatMessage (m : Json) : Json :=
  let role := match m.text "role" with
    | some "assistant" => "assistant"
    | _ => "user"
  message role (m.text "content")

def llmBody (p : Provider) (model : String) (spec : LlmSpec) : Except String Json := do
  let maxTokens := (← castOrRaise castInt "integer" (spec.llmConfig.text "max_tokens")).getD 1024
  match p.kind with
  | .anthropic =>
    let rest := spec.messages.filter fun m => m.text "role" ≠ some "system"
    pure (.object [("model", .str model), ("max_tokens", .ofInt maxTokens),
      ("system", .ofText (systemText spec.messages)), ("messages", .arr (rest.map chatMessage))])
  | _ =>
    let temperature ← castOrRaise castFloat8 "double precision"
      (spec.llmConfig.text "temperature")
    let body := Json.object [("model", .str model), ("messages", .arr spec.messages),
      ("temperature", .num (temperature.getD "0.2")), ("max_tokens", .ofInt maxTokens)]
    pure (if p.responseFormatJsonObject then
      body.merge (.object [("response_format", .object [("type", .str "json_object")])]) else body)

def buildLlmHttp (c : Config) (spec : LlmSpec) : Except String Outbound := do
  match spec.llmConfig.text "provider" with
  | none => .error "agent has no llm_config.provider configured -- set a provider and model before running this agent"
  | some name => match c.providers.find? fun p => p.name = name ∧ p.isEnabled with
    | none => .error ("llm provider \"" ++ name ++
        "\" is not configured or not enabled -- refusing to silently substitute a different provider")
    | some p => match spec.llmConfig.text "model" with
      | none => .error "agent has no llm_config.model configured -- set a provider and model before running this agent"
      | some model =>
        let base := rtrim p.baseUrl '/'
        match checkOutboundUrl (some base) p.allowPrivateNetwork with
        | some reason => .error ("llm provider \"" ++ p.name ++ "\" endpoint rejected: " ++ reason)
        | none =>
          let body ← llmBody p model spec
          let anthropic := p.kind = .anthropic
          let version := ("anthropic-version", Json.str "2023-06-01")
          pure
            { kind := .llm
              url := base ++ if anthropic then "/v1/messages" else "/chat/completions"
              requestHeaders := .object (("content-type", .str "application/json") ::
                if anthropic then [version] else [])
              requestBody := body
              allowPrivate := p.allowPrivateNetwork
              providerId := some p.providerId
              authKind := some (if anthropic then .xApiKey else .authorization)
              procedureFunctionId := spec.procedureFunctionId
              procedureId := spec.procedureId
              experimentId := spec.experimentId }

def errorPayload (text : String) : Json :=
  .object [("type", .str "error"), ("message", .str text)]

/-- An exception of the submitted step is swallowed. -/
def submitQuietly (pg : Postgres) (now : Time) (db : Db) (taskId : Uuid) (payload : Json) : Db :=
  match fnSubmitResult pg now db taskId payload with
  | .ok (db', _) => db'
  | .error _ => db

def occupies (t : Task) : Bool :=
  t.status = .running || t.status = .waitingHuman || t.status = .waitingChildren

def overCap (db : Db) (t : Task) : Bool :=
  let others := db.tasks.filter fun x =>
    x.agentId = t.agentId ∧ x.taskId ≠ t.taskId ∧ occupies x
  (db.cfg.policy? t.agentId).any fun p => others.length ≥ p.maxConcurrentTasks

/-- One round of the loop, with the id of the queued call. -/
def dispatchTask (pg : Postgres) (now : Time) (roll : Uuid → Rat) (db : Db) (t : Task) :
    Except String (Db × Option Uuid) :=
  if overCap db t then .ok (db, none)
  else match fnNextStep pg now (roll t.taskId) db t.taskId with
    | .error e => .ok (submitQuietly pg now db t.taskId (errorPayload e), none)
    | .ok (db', .done _) => .ok (db', none)
    | .ok (db', .callLlm spec) => match buildLlmHttp db'.cfg spec with
      | .ok o => .ok (db'.insertCall t.taskId (.outbound o) now, some db'.nextId)
      | .error e => match fnSubmitResult pg now db' t.taskId (errorPayload e) with
        | .ok (db'', _) => .ok (db'', none)
        | .error e => .error e

def dispatchLoop (pg : Postgres) (now : Time) (roll : Uuid → Rat) :
    Nat → List Task → Db → Except String (Db × List (Uuid × Uuid))
  | 0, _, db => .ok (db, [])
  | _ + 1, [], db => .ok (db, [])
  | n + 1, t :: ts, db => do
    let (db', queued) ← dispatchTask pg now roll db t
    match queued with
    | none => dispatchLoop pg now roll (n + 1) ts db'
    | some id =>
      let (db'', out) ← dispatchLoop pg now roll n ts db'
      pure (db'', (id, t.taskId) :: out)

/-- The tasks of other transactions are skipped. -/
def dispatchable (db : Db) (locked : List Uuid) : List Task :=
  sortBy (·.createdAt) (db.tasks.filter fun t =>
    (t.status = .queued ∨ t.status = .running) ∧ !db.hasLiveCall t.taskId ∧
      !locked.contains t.taskId)

def fnDispatchTasks (pg : Postgres) (now : Time) (roll : Uuid → Rat) (locked : List Uuid)
    (db : Db) : Except String (Db × List (Uuid × Uuid)) :=
  dispatchLoop pg now roll 4 (dispatchable db locked) db

end Allgres
