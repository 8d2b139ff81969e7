import Allgres.Capabilities
import Allgres.Raise
import Allgres.Runtime

/-! The operator functions that an agent's own actions reach: policies, agents,
functions, model experiments, fixes and memories. -/

namespace Allgres

open Raise Rows

def sanitizeLlmConfig (p : Json) : Json :=
  .stripNulls [("model", (nullIfEmpty (p.text "model")).map .str),
    ("temperature", p.get "temperature"),
    ("max_tokens", p.get "max_tokens"),
    ("provider", (nullIfEmpty (p.text "provider")).map .str)]

/-- The arguments of `fn_set_policy`; an absent one leaves its field alone. -/
structure PolicyChange where
  prompt : Option String := none
  maxSteps : Option Nat := none
  maxRetries : Option Nat := none
  llmConfig : Option Json := none
  maxConcurrentTasks : Option Nat := none
  maxTurnSeconds : Option Nat := none
  clearMaxTurnSeconds : Bool := false
  maxDelegationDepth : Option Nat := none
  maxSessionTasks : Option Nat := none

namespace PolicyChange

variable (ch : PolicyChange) (p : Policy)

def turnSeconds : Option Nat :=
  if ch.clearMaxTurnSeconds then none else ch.maxTurnSeconds.or p.maxTurnSeconds

/-- The constraint that refuses the new row. -/
def violated : Option String :=
  violatedCheck (ch.maxSteps.getD p.maxSteps) (ch.maxConcurrentTasks.getD p.maxConcurrentTasks)
    (ch.turnSeconds p) (ch.maxSessionTasks.getD p.maxSessionTasks)

def row (h : ch.violated p = none) : Policy :=
  { p with
    systemPrompt := (nullIfEmpty ch.prompt).getD p.systemPrompt
    maxSteps := ch.maxSteps.getD p.maxSteps
    maxRetries := ch.maxRetries.getD p.maxRetries
    llmConfig := match ch.llmConfig with
      | none => p.llmConfig
      | some cfg => sanitizeLlmConfig (p.llmConfig.merge cfg)
    maxConcurrentTasks := ch.maxConcurrentTasks.getD p.maxConcurrentTasks
    maxTurnSeconds := ch.turnSeconds p
    maxDelegationDepth := ch.maxDelegationDepth.getD p.maxDelegationDepth
    maxSessionTasks := ch.maxSessionTasks.getD p.maxSessionTasks
    checked := h }

/-- The row that the `UPDATE` writes. -/
def newRow : Except String Policy :=
  if h : ch.violated p = none then .ok (ch.row p h)
  else .error ("new row for relation \"policies\" violates check constraint \"" ++
    orEmpty (ch.violated p) ++ "\"")

/-- The row as the change leaves it: as it was, if the change is refused. -/
def apply : Policy :=
  (ch.newRow p).toOption.getD p

variable {ch p}

theorem apply_of_ok {q : Policy} (h : ch.newRow p = .ok q) : ch.apply p = q := by
  rw [apply, h]
  rfl

theorem newRow_of_free (h : ch.violated p = none) : ch.newRow p = .ok (ch.row p h) :=
  dif_pos h

theorem apply_cases (ch : PolicyChange) (p : Policy) :
    ch.apply p = p ∨ ∃ h, ch.newRow p = .ok (ch.row p h) ∧ ch.apply p = ch.row p h := by
  by_cases h : ch.violated p = none
  · exact .inr ⟨h, newRow_of_free h, apply_of_ok (newRow_of_free h)⟩
  · refine .inl ?_
    rw [apply, newRow, dif_neg h]
    rfl

@[simp] theorem apply_agentId : (ch.apply p).agentId = p.agentId := by
  rcases apply_cases ch p with h | ⟨_, _, h⟩
  · rw [h]
  · rw [h, row]

@[simp] theorem apply_generation : (ch.apply p).generation = p.generation := by
  rcases apply_cases ch p with h | ⟨_, _, h⟩
  · rw [h]
  · rw [h, row]

/-- A change that sets none of the bounds is not refused. -/
theorem violated_of_unbounded (hs : ch.maxSteps = none) (hc : ch.maxConcurrentTasks = none)
    (ht : ch.turnSeconds p = p.maxTurnSeconds) (hn : ch.maxSessionTasks = none) : ch.violated p = none := by
  rw [violated, hs, hc, ht, hn]
  exact p.checked

end PolicyChange

def fnSetPolicy (pg : Postgres) (now : Time) (c : Config) (agentId : Uuid) (ch : PolicyChange) :
    Except String (Config × Json) :=
  match c.policy? agentId with
  | none => .error "policy not found"
  | some p => do
    let q ← ch.newRow p
    let changed := decide (¬ q.Same p)
    let generation := if changed then p.generation + 1 else p.generation
    let isRow := fun r : Policy => decide (r.agentId = agentId)
    let c' :=
      { c with
        policies := update isRow (fun _ => { q with generation }) c.policies
        policyHistory := if changed then c.policyHistory ++ [p] else c.policyHistory }
    .ok (syncCapabilityIndex pg now c', .object [("ok", .bool true),
      ("generation", .ofInt generation), ("changed", .bool changed)])

/-- The row trigger `agents_ensure_policy`. -/
def ensurePolicy (c : Config) (agentId : Uuid) (defaultPrompt : String) : Config :=
  if (c.policy? agentId).isSome then c
  else { c with policies := c.policies ++ [{ agentId, systemPrompt := defaultPrompt }] }

def fnProvisionAgentRole (c : Config) (agentId : Uuid) : Config :=
  let role := "allgres_agent_" ++ uuidHex agentId
  let isRow := fun a : Agent => decide (a.agentId = agentId ∧ a.pgRole = none)
  { c with agents := update isRow (fun a => { a with pgRole := some role }) c.agents }

def fnCreateAgent (pg : Postgres) (now : Time) (c : Config) (name prompt : Option String) :
    Except String (Config × Json) := do
  let name := btrim (orEmpty name)
  raiseIf (name = "") "agent name required"
  raiseIf (c.agents.any (·.name = name) = true)
    "duplicate key value violates unique constraint \"agents_name_key\""
  let id := c.nextId
  let c := { c with agents := c.agents ++ [{ agentId := id, name }], nextId := c.nextId + 1 }
  let c := syncCapabilityIndex pg now (ensurePolicy c id pg.defaultPrompt)
  let isRow := fun p : Policy => decide (p.agentId = id)
  let c := match trimmed prompt, prompt with
    | some _, some text => syncCapabilityIndex pg now
        { c with policies := update isRow (fun p => { p with systemPrompt := text }) c.policies }
    | _, _ => c
  let c := fnProvisionAgentRole c id
  pure (queueAgentEmbedding c id now, .object [("ok", .bool true), ("agent_id", .str (uuidText id)),
    ("pg_role", .str ("allgres_agent_" ++ uuidHex id))])

def isWordChar (c : Char) : Bool :=
  c.isAlphanum || c = '_'

/-- Words with white space between them, from a word boundary to a word boundary. -/
def phraseAt : List (List Char) → List Char → Bool
  | [], _ => true
  | [w], cs => w.isPrefixOf cs && (cs.drop w.length).head?.all (!isWordChar ·)
  | w :: ws, cs =>
    let rest := cs.drop w.length
    w.isPrefixOf cs && rest.head?.any isSpace && phraseAt ws (rest.dropWhile isSpace)

def containsPhrase (ws : List (List Char)) : Bool → List Char → Bool
  | _, [] => false
  | inWord, c :: cs => (!inWord && phraseAt ws (c :: cs)) || containsPhrase ws (isWordChar c) cs

def hasPhrase (body : String) (ws : List String) : Bool :=
  containsPhrase (ws.map String.toList) false (upper body).toList

def validateFunctionBody (body : Option String) : Except String Unit := do
  let b := orEmpty body
  raiseIf (b.length = 0) "function body is required"
  raiseIf (b.length > 20000) "function body is too long (max 20000 characters)"
  raiseIf (hasPhrase b ["SECURITY", "DEFINER"] = true)
    "function body may not declare SECURITY DEFINER"
  raiseIf ((hasPhrase b ["SET", "ROLE"] || hasPhrase b ["SET", "SESSION", "ROLE"] ||
    hasPhrase b ["RESET", "ROLE"]) = true) "function body may not change role"

/-- `^[a-z][a-z0-9_]{0,62}$`. -/
def isFunctionName (name : String) : Bool :=
  match name.toList with
  | [] => false
  | c :: cs => c.isLower && cs.length ≤ 62 && cs.all fun d => d.isLower || d.isDigit || d = '_'

def hasOnlyKey (v : Json) (key : String) : Bool :=
  v.isObject && v.keys.all (· == key)

def newFunction (c : Config) (name description : String) (handler : Handler)
    (args : Json) (body : Option String) (paramSchema : Option Json)
    (mcpConnectionId : Option Uuid) : Except String Function := do
  raiseIf (isFunctionName name = false)
    "function name must use lowercase letters, digits, and underscores"
  raiseIf (description = "") "function description is required"
  let row : Function := { functionId := c.nextId, name, description, handler }
  match handler with
  | .httpGet =>
    raiseIf (hasOnlyKey args "url" = false) "http_get function arguments must contain only url"
    let url := trimmed (args.text "url")
    match checkOutboundUrl url false with
    | some reason => .error ("invalid function URL: " ++ reason)
    | none => pure { row with argsTemplate := .object [("url", .ofText url)] }
  | .mcpCall =>
    let enabled := mcpConnectionId.bind c.connection?
    raiseIf (enabled.any (·.isEnabled) = false)
      "mcp_call function needs an existing, enabled connection"
    let tool := trimmed (args.text "tool")
    raiseIf (tool = none ∨ hasOnlyKey args "tool" = false)
      "mcp_call function arguments must contain only a non-empty tool"
    pure { row with argsTemplate := .object [("tool", .ofText tool)], mcpConnectionId }
  | .plpgsql =>
    validateFunctionBody body
    pure { row with
      paramSchema := paramSchema.getD (.object [])
      body
      buildStatus := .pending
      sqlIdent := some ("fn_" ++ uuidHex c.nextId) }

def fnCreateFunction (pg : Postgres) (now : Time) (c : Config) (name description : Option String)
    (handler : Handler) (args : Json) (body : Option String) (paramSchema : Option Json)
    (createdBy mcpConnectionId : Option Uuid) : Except String (Config × Json) := do
  let name := lower (btrim (orEmpty name))
  let f ← newFunction c name (btrim (orEmpty description)) handler args body paramSchema
    mcpConnectionId
  raiseIf (c.functions.any (·.name = name) = true)
    "duplicate key value violates unique constraint \"functions_name_key\""
  let row := { f with createdByAgentId := createdBy, updatedAt := now }
  let c' := { c with functions := c.functions ++ [row], nextId := c.nextId + 1 }
  pure (syncCapabilityIndex pg now c',
    .object [("ok", .bool true), ("function_id", .str (uuidText c.nextId))])

def fnUpdateFunction (pg : Postgres) (now : Time) (c : Config) (functionId : Uuid)
    (description body : Option String) (paramSchema : Option Json) :
    Except String (Config × Json) := do
  match c.function? functionId with
  | none => .error "function not found"
  | some f =>
    raiseIf (f.handler ≠ .plpgsql)
      "only a plpgsql function can be edited -- http_get is fixed at creation"
    if body.isSome then validateFunctionBody body
    let g : Function :=
      { f with
        description := (trimmed description).getD f.description
        body := body.or f.body
        paramSchema := paramSchema.getD f.paramSchema }
    let changed := decide (¬ g.Same f)
    let row : Function :=
      { g with
        buildStatus := if body.isSome then .pending else f.buildStatus
        generation := if changed then f.generation + 1 else f.generation
        updatedAt := now }
    let isRow := fun r : Function => decide (r.functionId = functionId)
    let c' :=
      { c with
        functions := update isRow (fun _ => row) c.functions
        functionHistory := if changed then c.functionHistory ++ [f] else c.functionHistory }
    pure (syncCapabilityIndex pg now c',
      .object [("ok", .bool true), ("function_id", .str (uuidText functionId))])

def fnSetProcedure (pg : Postgres) (now : Time) (c : Config) (procedureId : Uuid)
    (content : Option String) (enabled : Option Bool) (body : Option String) :
    Except String (Config × Json) := do
  match c.procedure? procedureId with
  | none => .error "procedure not found"
  | some p =>
    if body.isSome then validateFunctionBody body
    let q : Procedure :=
      { p with
        content := (nullIfEmpty content).getD p.content
        body := body.or p.body
        sqlIdent := p.sqlIdent.or ((body.or p.body).map fun _ => "proc_" ++ uuidHex procedureId) }
    let changed := decide (q.content ≠ p.content ∨ q.body ≠ p.body)
    let isRow := fun r : Procedure => decide (r.procedureId = procedureId)
    raiseIf (c.procedures.any (fun r => !isRow r && r.sqlIdent.isSome && r.sqlIdent = q.sqlIdent) = true)
      "duplicate key value violates unique constraint \"procedures_sql_ident_key\""
    let generation := if changed then p.generation + 1 else p.generation
    let row : Procedure :=
      { q with
        buildStatus := if q.body ≠ p.body ∧ q.body.isSome then .pending else p.buildStatus
        isActive := enabled.getD p.isActive
        generation
        updatedAt := now }
    let c' :=
      { c with
        procedures := update isRow (fun _ => row) c.procedures
        procedureHistory := if changed then c.procedureHistory ++ [p] else c.procedureHistory }
    pure (syncCapabilityIndex pg now c',
      .object [("ok", .bool true), ("generation", .ofInt generation), ("changed", .bool changed)])

def ResourceType.text : ResourceType → String
  | view => "view" | function => "function" | agent => "agent" | httpHost => "http_host"
  | procedure => "procedure"

def ResourceType.ofText? (text : String) : Option ResourceType :=
  [view, function, agent, httpHost, procedure].find? (·.text = text)

/-- The row is kept if it is there. -/
def insertPermission (c : Config) (p : Permission) : Config :=
  { c with permissions := if p ∈ c.permissions then c.permissions else c.permissions ++ [p] }

def fnGrantPermission (c : Config) (agentId : Uuid) (type ref : Option String) :
    Except String (Config × Json) :=
  match type, ref with
  | none, _ => .error ("null value in column \"resource_type\" of relation \"permissions\" " ++
      "violates not-null constraint")
  | some _, none => .error ("null value in column \"resource_ref\" of relation \"permissions\" " ++
      "violates not-null constraint")
  | some type, some ref => match ResourceType.ofText? type with
    | none => .error ("new row for relation \"permissions\" violates check constraint " ++
        "\"permissions_resource_type_check\"")
    | some type =>
      if c.agent? agentId = none then
        .error ("insert or update on table \"permissions\" violates foreign key constraint " ++
          "\"permissions_agent_id_fkey\"")
      else .ok (insertPermission c ⟨agentId, type, ref⟩, .object [("ok", .bool true)])

def fnRevokePermission (c : Config) (agentId : Uuid) (type ref : Option String) : Config × Json :=
  let hit := fun p : Permission => decide (p.agentId = agentId ∧
    some p.resourceType.text = type ∧ some p.resourceRef = ref)
  ({ c with permissions := c.permissions.filter (!hit ·) }, .object [("ok", .bool true)])

def fnSetAgentActive (pg : Postgres) (now : Time) (c : Config) (agentId : Uuid) (active : Bool) :
    Except String (Config × Json) := do
  raiseIf (c.agent? agentId = none) "agent not found"
  let isRow := fun a : Agent => decide (a.agentId = agentId)
  let c' := { c with agents := update isRow (fun a => { a with isActive := active }) c.agents }
  pure (syncCapabilityIndex pg now c', .object [("ok", .bool true), ("is_active", .bool active)])

def applyFix (pg : Postgres) (now : Time) (c : Config) (kind : FixKind) (target : Uuid)
    (detail : Json) : Except String (Config × Json) :=
  match kind with
  | .revokePermission =>
    .ok (fnRevokePermission c target (detail.text "resource_type") (detail.text "resource_ref"))
  | .deactivateAgent => fnSetAgentActive pg now c target false

/-- `round(q, 3)` of a rate. -/
def round3 (q : Rat) : Rat :=
  (q * 1000 + 1 / 2).floor / 1000

/-- The share of successes among the calls that have an outcome. -/
def successRate (calls : List Call) : Option Rat :=
  let scored := calls.filter (·.outcome.isSome)
  if scored = [] then none
  else
    let won : Rat := (scored.filter (·.outcome = some .success)).length
    some (round3 (won / (scored.length : Rat)))

def baselineCall (functionId : Uuid) (c : Call) : Bool :=
  match c.req with
  | .outbound o => o.kind = .llm ∧ o.procedureFunctionId = some functionId ∧ o.experimentId = none
  | _ => false

def experimentCall (experimentId : Uuid) (c : Call) : Bool :=
  match c.req with
  | .outbound o => o.experimentId = some experimentId
  | _ => false

/-- `canary_percent` was checked by the caller, `min_sample_size` only by the table. -/
def applyFunctionExperimentStart (c : Config) (calls : List Call) (functionId : Uuid)
    (provider model : String) (canaryPercent : Int) (minSampleSize : Option Int)
    (proposedBy : Uuid) (reason : Option String) : Except String (Config × Uuid) := do
  let minSampleSize := minSampleSize.getD 20
  raiseIf (minSampleSize ≤ 0)
    "new row violates check constraint \"model_experiments_min_sample_size_check\""
  let row : ModelExperiment :=
    { experimentId := c.nextId
      functionId
      candidateProvider := provider
      candidateModel := model
      canaryPercent
      minSampleSize
      baselineSuccessRate := successRate (calls.filter (baselineCall functionId))
      proposedByAgentId := some proposedBy
      reason }
  pure ({ c with experiments := c.experiments ++ [row], nextId := c.nextId + 1 }, c.nextId)

def decideExperiment (c : Config) (id : Uuid) (status : ExperimentStatus) : Config :=
  let isRow := fun e : ModelExperiment => decide (e.experimentId = id)
  { c with experiments := update isRow (fun e => { e with status }) c.experiments }

def applyFunctionExperimentPromote (c : Config) (now : Time) (e : ModelExperiment) :
    Except String Config := do
  raiseIf (c.providers.any (fun p => p.name = e.candidateProvider ∧ p.isEnabled) = false)
    "candidate provider is no longer enabled -- fix it or reject this experiment instead"
  let override := Json.object [("provider", .str e.candidateProvider),
    ("model", .str e.candidateModel)]
  let isRow := fun f : Function => decide (f.functionId = e.functionId)
  let promote := fun f : Function => { f with llmOverride := some override, updatedAt := now }
  pure (decideExperiment { c with functions := update isRow promote c.functions }
    e.experimentId .promoted)

def applyFunctionExperimentReject (c : Config) (e : ModelExperiment) : Config :=
  decideExperiment c e.experimentId .rejected

def memoryTypes : List String :=
  ["semantic", "episodic", "preference", "instruction", "relationship", "working"]

def dayMillis : Nat := 86400000

/-- The first instant behind the range of `timestamptz`. -/
def endTimestamp : Time := 9224318016000000

def memoryImportance (pg : Postgres) (text : Option String) : Rat :=
  match nullIfEmpty text with
  | none => 1 / 2
  | some s => (pg.unitReal s).getD (1 / 2)

def memoryExpiry (now : Time) (days : Option String) : Option Time := do
  let s ← nullIfEmpty days
  let n ← castInt s
  let t := now + n.toNat * dayMillis
  if t < endTimestamp then some t else none

/-- `ORDER BY importance DESC, created_at DESC`. -/
def memoryBefore (a b : Memory) : Prop :=
  b.importance < a.importance ∨ (a.importance = b.importance ∧ b.createdAt ≤ a.createdAt)

instance (a b : Memory) : Decidable (memoryBefore a b) := by
  unfold memoryBefore
  infer_instance

def rankedMemories (ms : List Memory) : List Memory :=
  ms.insertionSort memoryBefore

def evictMemories (c : Config) (agentId : Uuid) : Config :=
  let evicted := (rankedMemories (c.memories.filter (·.agentId = agentId))).drop 500
  { c with memories := c.memories.filter fun m => ¬ evicted.any (·.memoryId = m.memoryId) }

/-- The memory written by `write_memory`, or why it was refused. -/
def writeMemory (pg : Postgres) (now : Time) (c : Config) (agentId : Uuid)
    (content memoryType importance subjectId expiresInDays : Option String)
    (sessionId taskId : Option Uuid) : Except String (Config × Memory) := do
  let content := btrim (orEmpty content)
  raiseIf (content = "") "empty_content"
  let memoryType := (nullIfEmpty memoryType).getD "semantic"
  raiseIf (memoryType ∉ memoryTypes) "invalid_memory_type"
  let row : Memory :=
    { memoryId := c.nextId
      agentId
      subjectId := trimmed subjectId
      memoryType
      content := left content 4000
      importance := memoryImportance pg importance
      sourceSessionId := sessionId
      sourceTaskId := taskId
      createdAt := now
      expiresAt := memoryExpiry now expiresInDays }
  let c := { c with memories := c.memories ++ [row], nextId := c.nextId + 1 }
  pure (evictMemories (queueMemoryEmbedding c row.memoryId now) agentId, row)

end Allgres
