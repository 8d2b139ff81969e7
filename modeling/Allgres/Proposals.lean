import Allgres.Actions

/-! The actions that change an agent, a function or a memory: applied at once when
the autonomy level of the agent allows it, else queued as a proposal. -/

namespace Allgres

open Raise Rows

def AutonomyLevel.text : AutonomyLevel → String
  | auto => "auto" | selfApprove => "self_approve" | adminApproval => "admin_approval"

namespace Turn

/-- A proposal row, with the log entry and answer that name it. -/
def propose (T : Turn) (row : ChangeProposal) (logged : List (String × Json)) : Step :=
  let id := ("proposal_id", Json.str (uuidText T.cfg.nextId))
  { cfg := { T.cfg with
      changeProposals := T.cfg.changeProposals ++ [{ row with proposalId := T.cfg.nextId }]
      nextId := T.cfg.nextId + 1 }
    logs := [(.assistant, .object (logged ++ [id]))]
    result := .object [("action", .str "continue"), id] }

/-- An applied change, with the log entry and answer that report it. -/
def applied (T : Turn) (cfg : Config) (logged answer : List (String × Json)) : Step :=
  { cfg
    logs := [(.assistant,
      .object (logged ++ [("autonomy_level", .str T.agent.autonomyLevel.text)]))]
    result := .object ([("action", .str "continue"), ("applied", .bool true)] ++ answer) }

def reasonOf (parsed : Json) : Option String :=
  trimmed (parsed.text "reason")

inductive OverrideOp where
  | startExperiment | promote | reject
  deriving DecidableEq

def overrideOp (s : Option String) : Option OverrideOp :=
  if s = some "start_experiment" then some .startExperiment
  else if s = some "promote" then some .promote
  else if s = some "reject" then some .reject else none

def OverrideOp.text : OverrideOp → String
  | .startExperiment => "start_experiment" | .promote => "promote" | .reject => "reject"

def overrideTarget (T : Turn) (parsed : Json) : Except Halt Uuid := do
  if T.agent.name ≠ "self_improve" then
    orRefuse (refuse "propose_change_cross_agent_not_permitted" [])
  let target ← castOr castUuid "uuid" (nullIfEmpty (parsed.text "target_function_id"))
  match target.filter fun id => T.cfg.functions.any fun f => f.functionId = id ∧ f.isActive with
  | some id => pure id
  | none => orRefuse (refuse "propose_change_target_not_found"
      [("target_function_id", .ofText (target.map uuidText))])

/-- The checks of `start_experiment`, giving the canary share. -/
def startChecks (T : Turn) (parsed : Json) (target : Uuid) : Except Halt Int := do
  if trimmed (parsed.text "candidate_provider") = none ∨
      trimmed (parsed.text "candidate_model") = none ∨
      nullIfEmpty (parsed.text "canary_percent") = none then
    orRefuse (refuse "function_override_incomplete" [("parsed", parsed)])
  let percent := (← castOr castInt "integer" (parsed.text "canary_percent")).getD 0
  if percent ≤ 0 ∨ percent > 100 then
    orRefuse (refuse "function_override_bad_canary_percent" [("canary_percent", .ofInt percent)])
  let provider := parsed.text "candidate_provider"
  if !T.cfg.providers.any fun p => some p.name = provider ∧ p.isEnabled then
    orRefuse (refuse "function_override_candidate_provider_not_enabled"
      [("candidate_provider", .ofText provider)])
  if T.cfg.experiments.any fun e => e.functionId = target ∧ e.status = .running then
    orRefuse (refuse "function_override_experiment_already_running"
      [("target_function_id", .str (uuidText target))])
  pure percent

/-- The running experiment that `promote` and `reject` name. -/
def runningExperiment (T : Turn) (parsed : Json) (target : Uuid) :
    Except Halt ModelExperiment := do
  let id ← castOr castUuid "uuid" (nullIfEmpty (parsed.text "experiment_id"))
  match T.cfg.experiments.find? fun e =>
      some e.experimentId = id ∧ e.functionId = target ∧ e.status = .running with
  | some e => pure e
  | none => orRefuse (refuse "function_override_experiment_not_running"
      [("experiment_id", .ofText (parsed.text "experiment_id"))])

def dial (T : Turn) (key : String) (default : Int) : Except Halt Int := do
  let v ← castOr castInt "integer" (T.agent.agentConfig.text key)
  pure (v.getD default)

def canaryCapKey : String := "function_override_self_approve_canary_cap"

def promoteSlackKey : String := "function_override_auto_promote_slack_pct"

/-- Whether a candidate has the samples and the rate to be promoted without an operator. -/
def promotable (T : Turn) (e : ModelExperiment) (slack : Int) : Bool :=
  let calls := T.db.calls.filter (experimentCall e.experimentId)
  let samples : Int := (calls.filter (·.outcome.isSome)).length
  match e.baselineSuccessRate, successRate calls with
  | some baseline, some rate => samples ≥ e.minSampleSize ∧ rate ≥ baseline - (slack : Rat) / 100
  | _, _ => false

def logOverride (T : Turn) (parsed : Json) (target : Uuid) (op : OverrideOp) (cfg : Config)
    (experiment : Uuid) : Step :=
  let fn := ("target_function_id", Json.str (uuidText target))
  let ex := ("experiment_id", Json.str (uuidText experiment))
  T.applied cfg [("applied_function_override", parsed), fn, ("op", .str op.text), ex]
    [fn, ("op", .str op.text), ex]

def queueOverride (T : Turn) (parsed : Json) (target : Uuid) : Step :=
  T.propose
    { proposalId := 0
      agentId := T.task.agentId
      taskId := T.task.taskId
      kind := .functionOverride
      proposedChanges := (parsed.without "action").without "target_function_id"
      reason := reasonOf parsed
      baseGeneration := 0
      targetFunctionId := some target }
    [("proposed_function_override", parsed), ("target_function_id", .str (uuidText target))]

def startOverride (T : Turn) (parsed : Json) (target : Uuid) : Except Halt Step := do
  let percent ← T.startChecks parsed target
  let cap ← T.dial canaryCapKey 20
  let _ ← T.dial promoteSlackKey 0
  if T.agent.autonomyLevel = .auto ∨
      (T.agent.autonomyLevel = .selfApprove ∧ percent ≤ cap) then
    let samples ← castOr castInt "integer" (parsed.text "min_sample_size")
    let (cfg, id) ← orRaise (applyFunctionExperimentStart T.cfg T.db.calls target
      (orEmpty (parsed.text "candidate_provider")) (orEmpty (parsed.text "candidate_model"))
      percent samples T.task.agentId (reasonOf parsed))
    pure (T.logOverride parsed target .startExperiment cfg id)
  else pure (T.queueOverride parsed target)

def promoteOverride (T : Turn) (parsed : Json) (target : Uuid) : Except Halt Step := do
  let e ← T.runningExperiment parsed target
  let _ ← T.dial canaryCapKey 20
  let slack ← T.dial promoteSlackKey 0
  -- a promotion that fails is treated as one that did not qualify
  let promoted := if T.agent.autonomyLevel = .auto ∧ T.promotable e slack then
      (applyFunctionExperimentPromote T.cfg T.now e).toOption else none
  match promoted with
  | some cfg => pure (T.logOverride parsed target .promote cfg e.experimentId)
  | none => pure (T.queueOverride parsed target)

def rejectOverride (T : Turn) (parsed : Json) (target : Uuid) : Except Halt Step := do
  let e ← T.runningExperiment parsed target
  let _ ← T.dial canaryCapKey 20
  let _ ← T.dial promoteSlackKey 0
  if T.agent.autonomyLevel = .adminApproval then pure (T.queueOverride parsed target)
  else pure (T.logOverride parsed target .reject (applyFunctionExperimentReject T.cfg e)
    e.experimentId)

def functionOverride (T : Turn) (parsed : Json) : Except Halt Step := do
  let target ← T.overrideTarget parsed
  match overrideOp (parsed.text "op") with
  | none => orRefuse (refuse "function_override_invalid_op" [("op", .ofText (parsed.text "op"))])
  | some .startExperiment => T.startOverride parsed target
  | some .promote => T.promoteOverride parsed target
  | some .reject => T.rejectOverride parsed target

def keysWithin (v : Json) (allowed : List String) : Bool :=
  v.keys ≠ [] && v.keys.all (allowed.contains ·)

def policyChanges (parsed : Json) : Except Refusal Json :=
  let refused := fun reason changes => refuse (α := Json) reason [("changes", changes)]
  match parsed.get "changes" with
  | none => refused "propose_change_empty" .null
  | some changes =>
    if ¬ changes.isObject ∨ changes.keys = [] then refused "propose_change_empty" changes
    else if !keysWithin changes ["system_prompt", "llm_config"] then
      refused "propose_change_field_not_allowed" changes
    else match changes.get "llm_config" with
      | none => .ok changes
      | some cfg =>
        if cfg.isObject ∧ keysWithin cfg ["model", "temperature", "max_tokens"] then .ok changes
        else refused "propose_change_field_not_allowed" changes

def policyTarget (T : Turn) (parsed changes : Json) : Except Halt Uuid := do
  if !parsed.has "target_agent_id" then pure T.task.agentId
  else
    if T.agent.name ≠ "self_improve" then
      orRefuse (refuse "propose_change_cross_agent_not_permitted" [("changes", changes)])
    match ← castOr castUuid "uuid" (nullIfEmpty (parsed.text "target_agent_id")) with
    | none => pure T.task.agentId
    | some id =>
      if T.cfg.agents.any fun a => a.agentId = id ∧ a.isActive then pure id
      else orRefuse (refuse "propose_change_target_not_found"
        [("target_agent_id", .str (uuidText id))])

def policyChange (pg : Postgres) (T : Turn) (parsed : Json) : Except Halt Step := do
  let changes ← orRefuse (policyChanges parsed)
  let target ← T.policyTarget parsed changes
  let field := ("target_agent_id", Json.str (uuidText target))
  if T.agent.isSystem ∧ T.agent.autonomyLevel ≠ .adminApproval then
    let ch : PolicyChange :=
      { prompt := changes.text "system_prompt", llmConfig := changes.get "llm_config" }
    let (cfg, _) ← orRaise (fnSetPolicy pg T.now T.cfg target ch)
    pure (T.applied cfg [("applied_change", changes), field] [field])
  else match T.cfg.policy? target with
    | some p => pure (T.propose
        { proposalId := 0
          agentId := T.task.agentId
          taskId := T.task.taskId
          proposedChanges := changes
          reason := reasonOf parsed
          baseGeneration := p.generation
          targetAgentId := if target = T.task.agentId then none else some target }
        [("proposed_change", changes), field])
    -- no policy, no row: the proposal id is null
    | none =>
      pure
        { cfg := T.cfg
          logs := [(.assistant,
            .object [("proposed_change", changes), ("proposal_id", .null), field])]
          result := .object [("action", .str "continue"), ("proposal_id", .null)] }

def proposeChange (pg : Postgres) (T : Turn) (parsed : Json) : Except Halt Step :=
  if parsed.has "target_function_id" then T.functionOverride parsed else T.policyChange pg parsed

def createAgent (pg : Postgres) (T : Turn) (parsed : Json) : Except Halt Step := do
  let name := parsed.text "name"
  let prompt := parsed.text "system_prompt"
  if T.agent.name ≠ "creator" then orRefuse (refuse "create_agent_not_permitted" [])
  if trimmed name = none ∨ trimmed prompt = none then
    orRefuse (refuse "create_agent_incomplete" [("parsed", parsed)])
  if T.agent.autonomyLevel ≠ .adminApproval then
    let (cfg, created) ← orRaise (fnCreateAgent pg T.now T.cfg name prompt)
    pure (T.applied cfg [("created_agent", created)] [("created_agent", created)])
  else pure (T.propose
    { proposalId := 0
      agentId := T.task.agentId
      taskId := T.task.taskId
      kind := .createAgent
      proposedChanges := .object [("name", .ofText name), ("system_prompt", .ofText prompt)]
      reason := reasonOf parsed
      baseGeneration := 0 }
    [("proposed_agent", parsed)])

def createFunction (pg : Postgres) (T : Turn) (parsed : Json) : Except Refusal Step := do
  let name := parsed.text "name"
  let description := parsed.text "description"
  let body := parsed.text "body"
  let schema := (parsed.get "param_schema").getD (.object [])
  if trimmed name = none ∨ trimmed description = none ∨ trimmed body = none then
    refuse "create_function_incomplete" [("parsed", parsed)]
  if T.agent.autonomyLevel ≠ .adminApproval then
    match fnCreateFunction pg T.now T.cfg name description .plpgsql (.object []) body
        (some schema) (some T.task.agentId) none with
    | .ok (cfg, created) =>
      pure (T.applied cfg [("created_function", created)] [("created_function", created)])
    | .error e => refuse "create_function_rejected" [("message", .str e)]
  else pure (T.propose
    { proposalId := 0
      agentId := T.task.agentId
      taskId := T.task.taskId
      kind := .createFunction
      proposedChanges := .object [("name", .ofText name), ("description", .ofText description),
        ("body", .ofText body), ("param_schema", schema)]
      reason := reasonOf parsed
      baseGeneration := 0 }
    [("proposed_function", parsed)])

def updateFunctionTarget (T : Turn) (parsed : Json) : Except Halt Uuid := do
  let id ← castOr castUuid "uuid" (nullIfEmpty (parsed.text "function_id"))
  match id.filter fun id => T.cfg.functions.any fun f =>
      f.functionId = id ∧ f.handler = .plpgsql with
  | some id => pure id
  | none => orRefuse (refuse "update_function_target_not_found"
      [("function_id", .ofText (id.map uuidText))])

def updateFunction (pg : Postgres) (T : Turn) (parsed : Json) : Except Halt Step := do
  let target ← T.updateFunctionTarget parsed
  let description := parsed.text "description"
  let body := parsed.text "body"
  let schema := parsed.get "param_schema"
  if T.agent.autonomyLevel ≠ .adminApproval then
    match fnUpdateFunction pg T.now T.cfg target description body schema with
    | .ok (cfg, updated) =>
      pure (T.applied cfg [("updated_function", updated)] [("updated_function", updated)])
    | .error e => orRefuse (refuse "update_function_rejected" [("message", .str e)])
  else pure (T.propose
    { proposalId := 0
      agentId := T.task.agentId
      taskId := T.task.taskId
      kind := .updateFunction
      proposedChanges := .object [("description", .ofText description), ("body", .ofText body),
        ("param_schema", schema.getD .null)]
      reason := reasonOf parsed
      baseGeneration := 0
      targetFunctionId := some target }
    [("proposed_function_update", parsed), ("target_function_id", .str (uuidText target))])

def fixKind (s : Option String) : Option FixKind :=
  if s = some "revoke_permission" then some .revokePermission
  else if s = some "deactivate_agent" then some .deactivateAgent else none

def fixTarget (T : Turn) (parsed : Json) : Except Halt (FixKind × Uuid) := do
  if T.agent.name ≠ "fixer" then orRefuse (refuse "propose_fix_not_permitted" [])
  match fixKind (parsed.text "fix_kind") with
  | none => orRefuse (refuse "propose_fix_unknown_kind" [("parsed", parsed)])
  | some kind =>
    let id ← castOr castUuid "uuid" (nullIfEmpty (parsed.text "target_agent_id"))
    match id.filter fun id => (T.cfg.agent? id).isSome with
    | some id => pure (kind, id)
    | none => orRefuse (refuse "propose_fix_target_not_found"
        [("target_agent_id", .ofText (id.map uuidText))])

def proposeFix (pg : Postgres) (T : Turn) (parsed : Json) : Except Halt Step := do
  let (kind, target) ← T.fixTarget parsed
  let detail := (parsed.get "detail").getD (.object [])
  if T.agent.autonomyLevel ≠ .adminApproval then
    let (cfg, result) ← orRaise (applyFix pg T.now T.cfg kind target detail)
    pure (T.applied cfg [("applied_fix", parsed), ("result", result)] [("result", result)])
  else
    let row : FixProposal :=
      { fixId := T.cfg.nextId
        agentId := T.task.agentId
        taskId := T.task.taskId
        fixKind := kind
        targetAgentId := target
        detail
        reason := reasonOf parsed }
    let id := ("fix_id", Json.str (uuidText T.cfg.nextId))
    pure
      { cfg := { T.cfg with
          fixProposals := T.cfg.fixProposals ++ [row]
          nextId := T.cfg.nextId + 1 }
        logs := [(.assistant, .object [("proposed_fix", parsed), id])]
        result := .object [("action", .str "continue"), id] }

/-- The session a compaction task was created for and its cut, once the summary is stored. -/
def compactionOf (pg : Postgres) (T : Turn) : Except Halt (Option (Uuid × Option Time)) := do
  if T.agent.name = "session_compactor" ∧ T.task.input.has "target_session_id" ∧
      T.task.input.has "compact_cutoff" then
    let id ← castOr castUuid "uuid" (T.task.input.text "target_session_id")
    match id.bind T.db.session? with
    | none => pure none
    | some s =>
      let cutoff ← castOr pg.castTimestamptz "timestamp with time zone"
        (T.task.input.text "compact_cutoff")
      pure (some (s.sessionId, cutoff))
  else pure none

def remember (pg : Postgres) (T : Turn) (parsed : Json) : Except Halt Step := do
  match writeMemory pg T.now T.cfg T.task.agentId (parsed.text "content")
      (parsed.text "memory_type") (parsed.text "importance") (parsed.text "subject_id")
      (parsed.text "expires_in_days") (some T.task.sessionId) (some T.task.taskId) with
  | .error e => orRefuse (refuse ("remember_" ++ e) [("payload", parsed)])
  | .ok (cfg, m) =>
    let compacted ← T.compactionOf pg
    pure
      { cfg
        logs := [(.assistant, .object [("remembered", .str (uuidText m.memoryId)),
          ("memory_type", .str m.memoryType)])]
        compacted
        result := .object [("action", .str "continue"),
          ("memory_id", .str (uuidText m.memoryId))] }

end Turn

end Allgres
