import Allgres.NextStep

/-! What an operator decides about the proposals of agents, and the rollback of a policy. -/

namespace Allgres

open Raise Rows

def ChangeProposal.target (r : ChangeProposal) : Uuid :=
  r.targetAgentId.getD r.agentId

def ChangeProposal.policyChange (r : ChangeProposal) : PolicyChange :=
  { prompt := r.proposedChanges.text "system_prompt"
    llmConfig := r.proposedChanges.get "llm_config" }

def ProposalStatus.text : ProposalStatus → String
  | pending => "pending" | approved => "approved" | rejected => "rejected" | stale => "stale"

def settleProposal (now : Time) (id : Uuid) (status : ProposalStatus) (reply : Option String)
    (c : Config) : Config :=
  let settle := fun r : ChangeProposal =>
    { r with
      status
      decidedAt := some now
      decidedReply := reply }
  { c with changeProposals := update (·.proposalId = id) settle c.changeProposals }

def proposal? (c : Config) (id : Uuid) : Option ChangeProposal :=
  c.changeProposals.find? (·.proposalId = id)

def decided (status : ProposalStatus) (fields : List (String × Json)) : Json :=
  .object ([("ok", .bool (status ≠ .stale)), ("status", .str status.text)] ++ fields)

section Branches

variable (pg : Postgres) (now : Time) (c : Config) (calls : List Call) (r : ChangeProposal)

def approveStart (reply : Option String) : Except String (Config × Json) := do
  let changes := r.proposedChanges
  let percent ← castOrRaise castInt "integer" (changes.text "canary_percent")
  let samples ← castOrRaise castInt "integer" (changes.text "min_sample_size")
  match r.targetFunctionId, changes.text "candidate_provider", changes.text "candidate_model", percent with
  | some target, some provider, some model, some percent =>
    raiseIf (percent ≤ 0 ∨ percent > 100)
      "new row violates check constraint \"model_experiments_canary_percent_check\""
    raiseIf (c.experiments.any (fun e => e.functionId = target ∧ e.status = .running) = true)
      "duplicate key value violates unique constraint \"model_experiments_one_running_per_function\""
    let (c', id) ← applyFunctionExperimentStart c calls target provider model percent samples r.agentId
      r.reason
    pure (settleProposal now r.proposalId .approved reply c',
      decided .approved [("experiment_id", .str (uuidText id))])
  | _, _, _, _ => .error "null value in a column of relation \"model_experiments\""

def closeExperiment (reply : Option String) (op : Option String) : Except String (Config × Json) := do
  let id ← castOrRaise castUuid "uuid" (nullIfEmpty (r.proposedChanges.text "experiment_id"))
  match c.experiments.find? fun e => some e.experimentId = id ∧ some e.functionId = r.targetFunctionId ∧
      e.status = .running with
  | none =>
    let said := reply.getD "experiment already decided or no longer running"
    pure (settleProposal now r.proposalId .stale (some said) c, decided .stale [])
  | some e =>
    let c' ← if op = some "promote" then applyFunctionExperimentPromote c now e
      else pure (applyFunctionExperimentReject c e)
    pure (settleProposal now r.proposalId .approved reply c',
      decided .approved [("experiment_id", .str (uuidText e.experimentId)), ("op", .ofText op)])

def approvePolicyChange (reply : Option String) : Except String (Config × Json) := do
  if (c.policy? r.target).map (·.generation) ≠ some r.baseGeneration then
    let said := reply.getD "base policy changed since this was proposed"
    pure (settleProposal now r.proposalId .stale (some said) c, decided .stale [])
  else
    let (c', policy) ← fnSetPolicy pg now c r.target r.policyChange
    pure (settleProposal now r.proposalId .approved reply c', decided .approved [("policy", policy)])

def approveProposal (reply : Option String) : Except String (Config × Json) := do
  let changes := r.proposedChanges
  match r.kind with
  | .createAgent =>
    let (c', created) ← fnCreateAgent pg now c (changes.text "name") (changes.text "system_prompt")
    pure (settleProposal now r.proposalId .approved reply c',
      decided .approved [("created_agent", created)])
  | .createFunction =>
    let (c', created) ← fnCreateFunction pg now c (changes.text "name") (changes.text "description")
      .plpgsql (.object []) (changes.text "body")
      (some ((changes.get "param_schema").getD (.object []))) (some r.agentId) none
    pure (settleProposal now r.proposalId .approved reply c',
      decided .approved [("created_function", created)])
  | .updateFunction => match r.targetFunctionId with
    | none => .error "function not found"
    | some id =>
      let (c', updated) ← fnUpdateFunction pg now c id (changes.text "description")
        (changes.text "body") (changes.get "param_schema")
      pure (settleProposal now r.proposalId .approved reply c',
        decided .approved [("updated_function", updated)])
  | .functionOverride =>
    let op := changes.text "op"
    if op = some "start_experiment" then approveStart now c calls r reply
    else closeExperiment now c r reply op
  | .policyChange => approvePolicyChange pg now c r reply

end Branches

def fnDecideProposal (pg : Postgres) (now : Time) (c : Config) (calls : List Call) (id : Uuid)
    (approve : Option Bool) (reply : Option String) : Except String (Config × Json) := do
  match proposal? c id with
  | none => .error "fn_decide_proposal: not found"
  | some r =>
    raiseIf (r.status ≠ .pending)
      ("fn_decide_proposal: already decided (" ++ r.status.text ++ ")")
    -- a null is no refusal
    if approve = some false then
      pure (settleProposal now id .rejected reply c, decided .rejected [])
    else approveProposal pg now c calls r reply

/-- All fields of an archived version. -/
def Policy.restore (h : Policy) : PolicyChange :=
  { prompt := some h.systemPrompt
    maxSteps := some h.maxSteps
    maxRetries := some h.maxRetries
    llmConfig := some h.llmConfig
    maxConcurrentTasks := some h.maxConcurrentTasks
    maxTurnSeconds := h.maxTurnSeconds
    clearMaxTurnSeconds := h.maxTurnSeconds.isNone
    maxDelegationDepth := some h.maxDelegationDepth
    maxSessionTasks := some h.maxSessionTasks }

def archived? (c : Config) (agentId : Uuid) (generation : Nat) : Option Policy :=
  c.policyHistory.find? fun h => h.agentId = agentId ∧ h.generation = generation

def fnRollbackPolicy (pg : Postgres) (now : Time) (c : Config) (agentId : Uuid) (generation : Nat) :
    Except String (Config × Json) :=
  match archived? c agentId generation with
  | none => .error ("fn_rollback_policy: no history for that agent at generation " ++
      toString generation)
  | some h => fnSetPolicy pg now c agentId h.restore

end Allgres
