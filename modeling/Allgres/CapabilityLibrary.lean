import Allgres.Numeric
import Allgres.RoutineRollback
import Allgres.Runtime

/-! The lifecycle of the rows of the capability index: their evaluations, the transitions
between lifecycles with the version each leaves behind, and the way back to a version. -/

namespace Allgres

open Rows Raise Runs

def Lifecycle.text : Lifecycle → String
  | draft => "draft" | testing => "testing" | reviewPending => "review_pending"
  | published => "published" | deprecated => "deprecated" | disabled => "disabled"

def Lifecycle.ofText? (text : String) : Option Lifecycle :=
  [draft, testing, reviewPending, published, deprecated, disabled].find? (·.text = text)

/-- The object under `snapshot`. -/
structure CapabilitySnapshot where
  name : String
  description : String
  searchDocument : String
  metadata : Json
  lifecycle : Lifecycle
  contentHash : String

structure CapabilityVersion where
  capabilityId : Uuid
  version : Nat
  lifecycle : Lifecycle
  snapshot : CapabilitySnapshot
  testResult : Option Json := none
  changeNote : Option String

structure CapabilityEvaluation where
  evaluationId : Uuid
  capabilityId : Uuid
  passed : Bool
  isolated : Bool := true
  checks : Json
  candidateMetrics : Json
  baselineMetrics : Json
  regression : Bool
  contentHash : String

structure Library where
  cfg : Config
  events : List SearchEvent := []
  versions : List CapabilityVersion := []
  evaluations : List CapabilityEvaluation := []

def Capability.snapshot (k : Capability) : CapabilitySnapshot :=
  { name := k.name
    description := k.description
    searchDocument := k.searchDocument
    metadata := k.metadata
    lifecycle := k.lifecycle
    contentHash := k.contentHash }

/-- `test_result->'candidate_metrics'->>'success_rate'`, as a number. -/
def recordedRate (testResult : Json) : Except String (Option Numeric) :=
  castOrRaise castNumeric "numeric"
    ((testResult.get "candidate_metrics").bind (·.text "success_rate"))

def rateOrNull (rate : Option Numeric) : Json :=
  (rate.map (·.json)).getD .null

namespace CapabilityEvaluation

/-- The reply of `evaluate_capability`. -/
def json (e : CapabilityEvaluation) : Json :=
  .object [("evaluation_id", .str (uuidText e.evaluationId)), ("passed", .bool e.passed),
    ("checks", e.checks), ("candidate_metrics", e.candidateMetrics),
    ("baseline_metrics", e.baselineMetrics), ("regression", .bool e.regression)]

/-- What a publication keeps of the evaluation it rests on. -/
def testResult (e : CapabilityEvaluation) : Json :=
  .object [("evaluation_id", .str (uuidText e.evaluationId)), ("passed", .bool true),
    ("checks", e.checks), ("candidate_metrics", e.candidateMetrics),
    ("baseline_metrics", e.baselineMetrics), ("regression", .bool e.regression)]

end CapabilityEvaluation

/-- The checks of an evaluation. -/
structure Checks where
  sourcePresent : Bool
  descriptionPresent : Bool
  inputContractPresent : Bool
  riskDeclared : Bool
  buildReady : Bool
  permissionFiltered : Bool
  baselineNotRegressed : Bool

def capabilityChecks (k : Capability) (regression : Bool) : Checks :=
  { sourcePresent := k.sourceId.isSome
    descriptionPresent := btrim k.description != ""
    inputContractPresent := k.capabilityType = .agent || k.metadata.has "param_schema" ||
      k.metadata.has "input_schema"
    riskDeclared := k.metadata.has "risk"
    buildReady := (k.metadata.text "build_status").getD "built" = "built"
    permissionFiltered := k.capabilityType ∈ [.agent, .function, .procedure]
    baselineNotRegressed := !regression }

def Checks.json (v : Checks) : Json :=
  .object [("source_present", .bool v.sourcePresent),
    ("description_present", .bool v.descriptionPresent),
    ("input_contract_present", .bool v.inputContractPresent),
    ("risk_declared", .bool v.riskDeclared), ("build_ready", .bool v.buildReady),
    ("permission_filtered", .bool v.permissionFiltered),
    ("baseline_not_regressed", .bool v.baselineNotRegressed)]

/-- `permission_filtered` is not asked for. -/
def Checks.passed (v : Checks) (regression : Bool) : Bool :=
  v.sourcePresent && v.descriptionPresent && v.inputContractPresent && v.riskDeclared &&
    v.buildReady && !regression

namespace Library

def capability? (L : Library) (id : Uuid) : Option Capability :=
  L.cfg.capabilities.find? (·.capabilityId = id)

def runs (L : Library) (id : Uuid) : List SearchEvent :=
  L.events.filter fun e => e.selectedCapabilityId = some id ∧
    (e.outcome = .succeeded ∨ e.outcome = .failed)

def successes (L : Library) (id : Uuid) : List SearchEvent :=
  (L.runs id).filter (·.outcome = .succeeded)

def candidateRate (L : Library) (id : Uuid) : Option Numeric :=
  if (L.runs id).length = 0 then none
  else some (.finite (divideCounts (L.successes id).length (L.runs id).length))

/-- The row the baseline is read from. -/
def baseline? (L : Library) (id : Uuid) : Option CapabilityVersion :=
  (sortDesc (·.version) (L.versions.filter fun v => v.capabilityId = id ∧
    v.lifecycle = .published ∧ v.testResult.isSome)).head?

def baselineRate (L : Library) (id : Uuid) : Except String (Option Numeric) :=
  match (L.baseline? id).bind (·.testResult) with
  | some testResult => recordedRate testResult
  | none => .ok none

/-- The current rate is known and below another. -/
def below (L : Library) (id : Uuid) (rate : Numeric) : Bool :=
  (L.candidateRate id).any (·.lt rate)

def evaluation (L : Library) (id : Uuid) : Except String CapabilityEvaluation :=
  match L.capability? id with
  | none => .error "capability not found"
  | some k => do
    let baseline ← L.baselineRate id
    let regression := baseline.any fun b => L.below id b
    let checks := capabilityChecks k regression
    pure
      { evaluationId := L.cfg.nextId
        capabilityId := id
        passed := checks.passed regression
        checks := checks.json
        candidateMetrics := .object [("runs", .ofInt (L.runs id).length),
          ("successes", .ofInt (L.successes id).length),
          ("success_rate", rateOrNull (L.candidateRate id))]
        baselineMetrics := .object [("success_rate", rateOrNull baseline)]
        regression
        contentHash := k.contentHash }

def evaluateCapability (L : Library) (id : Uuid) : Except String (Library × Json) := do
  let e ← L.evaluation id
  pure ({ L with
    evaluations := L.evaluations ++ [e]
    cfg := { L.cfg with nextId := L.cfg.nextId + 1 } }, e.json)

def nextVersion (L : Library) (id : Uuid) : Nat :=
  ((L.versions.filter (·.capabilityId = id)).map (·.version)).foldl max 0 + 1

/-- The passing evaluation of the content as it stands that a test result names. -/
def passing? (L : Library) (k : Capability) (evaluationId : Option Uuid) :
    Option CapabilityEvaluation :=
  L.evaluations.find? fun e => some e.evaluationId = evaluationId ∧
    e.capabilityId = k.capabilityId ∧ e.passed ∧ e.isolated ∧ e.contentHash = k.contentHash

def publication (L : Library) (k : Capability) (testResult : Option Json) :
    Except String (Option Json) := do
  let evaluationId ← castOrRaise castUuid "uuid"
    (nullIfEmpty (testResult.bind (·.text "evaluation_id")))
  match L.passing? k evaluationId with
  | none => .error "a current passing isolated evaluation is required to publish"
  | some e => pure (some e.testResult)

def lifecycleArgument (lifecycle : Option String) : Except String (Option Lifecycle) :=
  match lifecycle with
  | none => .ok none
  | some s => match Lifecycle.ofText? s with
    | none => .error "invalid capability lifecycle"
    | some l => .ok (some l)

/-- The version row a transition writes, and the lifecycle it enters. -/
def transitionRow (L : Library) (id : Uuid) (lifecycle : Option String)
    (testResult : Option Json) (note : Option String) :
    Except String (CapabilityVersion × Lifecycle) := do
  let target ← lifecycleArgument lifecycle
  match L.capability? id with
  | none => .error "capability not found"
  | some k =>
    raiseIf (k.lifecycle = .published ∧
        (target = some .draft ∨ target = some .testing ∨ target = some .reviewPending))
      "published capabilities are immutable; create a new source version"
    raiseIf (target = some .published ∧ k.lifecycle ≠ .reviewPending)
      "only review_pending capabilities may be published"
    let testResult ← if target = some .published then L.publication k testResult else pure testResult
    match target with
    | none => .error ("null value in column \"lifecycle\" of relation \"capability_index\" " ++
        "violates not-null constraint")
    | some target =>
      pure ({ capabilityId := id
              version := L.nextVersion id
              lifecycle := k.lifecycle
              snapshot := k.snapshot
              testResult
              changeNote := note.map (left · 2000) }, target)

def setLifecycle (c : Config) (id : Uuid) (lifecycle : Lifecycle) : Config :=
  { c with
    capabilities := update (·.capabilityId = id) (fun k => { k with lifecycle }) c.capabilities }

def transitionCapability (L : Library) (id : Uuid) (lifecycle : Option String)
    (testResult : Option Json) (note : Option String) : Except String (Library × Json) := do
  let (row, target) ← L.transitionRow id lifecycle testResult note
  pure ({ L with
    versions := L.versions ++ [row]
    cfg := setLifecycle L.cfg id target },
    .object [("ok", .bool true), ("version", .ofInt row.version), ("lifecycle", .str target.text)])

def version? (L : Library) (id : Uuid) (version : Int) : Option CapabilityVersion :=
  L.versions.find? fun v => v.capabilityId = id ∧ (v.version : Int) = version

/-- The routine a version was recorded for is rolled back first. -/
def rollbackSource (pg : Postgres) (now : Time) (c : Config) (k : Capability) (metadata : Json) :
    Except String Config := do
  if metadata.has "generation" then
    match k.capabilityType with
    | .procedure =>
      let generation ← castOrRaise castInt "integer" (metadata.text "generation")
      match k.sourceId, generation with
      | some source, some (.ofNat n) => do
        let (c', _) ← fnRollbackProcedure pg now c source n
        pure c'
      | _, g => .error ("fn_rollback_procedure: no history for that procedure at generation " ++
          (g.map toString).getD "<NULL>")
    | .function =>
      let generation ← castOrRaise castInt "integer" (metadata.text "generation")
      match k.sourceId, generation with
      | some source, some (.ofNat n) => do
        let (c', _) ← fnRollbackFunction pg now c source n
        pure c'
      | _, _ => .error "function version not found"
    | _ => pure c
  else pure c

def restore (k : Capability) (s : CapabilitySnapshot) : Capability :=
  { k with
    name := s.name
    description := s.description
    searchDocument := s.searchDocument
    metadata := s.metadata
    contentHash := s.contentHash
    lifecycle := .published
    embedding := none
    embeddingModel := none }

def rollbackCapability (pg : Postgres) (now : Time) (L : Library) (id : Uuid) (version : Int) :
    Except String (Library × Json) :=
  match L.version? id version with
  | none => .error "capability version not found"
  | some v => do
    let c ← match L.capability? id with
      | some k => rollbackSource pg now L.cfg k v.snapshot.metadata
      | none => pure L.cfg
    let saved : Option CapabilityVersion :=
      ({ L with cfg := c }.capability? id).map fun k : Capability =>
      { capabilityId := id
        version := L.nextVersion id
        lifecycle := k.lifecycle
        snapshot := k.snapshot
        changeNote := some ("rollback before restoring version " ++ toString version) }
    let c' := { c with
      capabilities := update (·.capabilityId = id) (restore · v.snapshot) c.capabilities }
    pure ({ L with
      versions := L.versions ++ saved.toList
      cfg := queueCapabilityEmbedding c' id now },
      .object [("ok", .bool true), ("restored_version", .ofInt version),
        ("saved_version", .ofInt (L.nextVersion id))])

end Library

inductive LibraryOp where
  | upsert (source : CapabilitySource)
  | sync
  | evaluate (id : Uuid)
  | transition (id : Uuid) (lifecycle : Option String) (testResult : Option Json)
      (note : Option String)
  | rollback (id : Uuid) (version : Int)
  | sourceChange (change : Config → Config)
  | elsewhere (change : Config → Config)
  | searched (change : List SearchEvent → List SearchEvent)

structure LibraryEvent where
  now : Time
  op : LibraryOp

namespace Library

def afterReply (L : Library) (x : Except String (Library × Json)) : Library :=
  match x with
  | .ok r => r.1
  | .error _ => L

/-- A change that leaves the index to the functions of this module. -/
def edited (c : Config) (change : Config → Config) : Config :=
  if (change c).capabilities = c.capabilities ∧ c.nextId ≤ (change c).nextId then change c else c

end Library

def libraryStep (pg : Postgres) (L : Library) (e : LibraryEvent) : Library :=
  match e.op with
  | .upsert source => { L with cfg := upsertCapability pg e.now L.cfg source }
  | .sync => { L with cfg := syncCapabilityIndex pg e.now L.cfg }
  | .evaluate id => L.afterReply (L.evaluateCapability id)
  | .transition id lifecycle testResult note =>
    L.afterReply (L.transitionCapability id lifecycle testResult note)
  | .rollback id version => L.afterReply (L.rollbackCapability pg e.now id version)
  -- the triggers on agents, policies, functions and procedures
  | .sourceChange change =>
    { L with cfg := syncCapabilityIndex pg e.now (Library.edited L.cfg change) }
  | .elsewhere change => { L with cfg := Library.edited L.cfg change }
  | .searched change => { L with events := change L.events }

/-- A transition that took place. -/
structure Transition where
  capabilityId : Uuid
  origin : Lifecycle
  target : Lifecycle
  testResult : Option Json

def Library.transitions (L : Library) (op : LibraryOp) : List Transition :=
  match op with
  | .transition id lifecycle testResult note =>
    match L.transitionRow id lifecycle testResult note with
    | .ok (row, target) => [⟨id, row.lifecycle, target, row.testResult⟩]
    | .error _ => []
  | _ => []

/-- A library, and the transitions it has seen, the last one first. -/
structure Course where
  library : Library
  past : List Transition := []

namespace Course

/-- The index is empty before the first write. -/
def start (c : Config) : Course :=
  { library := { cfg := { c with capabilities := [] } } }

def step (pg : Postgres) (x : Course) (e : LibraryEvent) : Course :=
  { library := libraryStep pg x.library e
    past := x.library.transitions e.op ++ x.past }

end Course

end Allgres
