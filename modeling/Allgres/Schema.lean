import Mathlib.Data.List.Dedup
import Mathlib.Data.Rat.Defs
import Allgres.Json

/-! The tables of `allgres_private` the modelled functions read or write. The
operator's tables are collected in `Config`, the run of sessions in `Db`. -/

namespace Allgres

/-- `timestamptz`, in milliseconds. -/
abbrev Time := Nat

/-- A `double precision` by the text it is read from. -/
abbrev Float8 := String

inductive AutonomyLevel where
  | auto | selfApprove | adminApproval
  deriving DecidableEq

inductive ResourceType where
  | view | function | agent | httpHost | procedure
  deriving DecidableEq

inductive BuildStatus where
  | pending | building | built | failed
  deriving DecidableEq

inductive Handler where
  | httpGet | plpgsql | mcpCall
  deriving DecidableEq

inductive ExperimentStatus where
  | running | promoted | rejected
  deriving DecidableEq

inductive RuleAction where
  | callFunction | executeSql | runProcedure
  deriving DecidableEq

inductive RuleDecision where
  | allow | approve | deny
  deriving DecidableEq

inductive ProviderKind where
  | openaiCompat | anthropic | oauth
  deriving DecidableEq

inductive ProviderPurpose where
  | chat | embedding
  deriving DecidableEq

/-- The header a credential is injected into. -/
inductive AuthKind where
  | authorization | xApiKey
  deriving DecidableEq

structure Agent where
  agentId : Uuid
  name : String
  isActive : Bool := true
  pgRole : Option String := none
  isSystem : Bool := false
  parentAgentId : Option Uuid := none
  autonomyLevel : AutonomyLevel := .adminApproval
  agentConfig : Json := .obj []
  embedding : Option (List (Option Float8)) := none
  embeddingModel : Option String := none
  deriving DecidableEq

/-- The first CHECK constraint of `policies`, by name, that a row would break. -/
def violatedCheck (maxSteps maxConcurrentTasks : Nat) (maxTurnSeconds : Option Nat) (maxSessionTasks : Nat) :
    Option String :=
  if maxConcurrentTasks = 0 then some "policies_max_concurrent_tasks_check"
  else if maxSessionTasks = 0 then some "policies_max_session_tasks_check"
  else if maxSteps = 0 then some "policies_max_steps_check"
  else if maxTurnSeconds = some 0 then some "policies_max_turn_seconds_check"
  else none

/-- What a check that passes comes to. -/
theorem none_violated : (none : Option String) = none := rfl

structure Policy where
  agentId : Uuid
  systemPrompt : String
  maxSteps : Nat := 20
  maxRetries : Nat := 2
  llmConfig : Json := .obj []
  generation : Nat := 1
  maxConcurrentTasks : Nat := 4
  maxTurnSeconds : Option Nat := none
  maxDelegationDepth : Nat := 5
  maxSessionTasks : Nat := 100
  checked : violatedCheck maxSteps maxConcurrentTasks maxTurnSeconds maxSessionTasks = none := by
    exact none_violated
  deriving DecidableEq

/-- The fields that `fn_set_policy` sets, with the values that `=` compares. -/
def Policy.settings (p : Policy) : Policy :=
  { p with
    llmConfig := p.llmConfig.byValue
    generation := 0 }

/-- No field of the one row is distinct from the other's. -/
def Policy.Same (p q : Policy) : Prop :=
  p.settings = q.settings

instance (p q : Policy) : Decidable (p.Same q) :=
  inferInstanceAs (Decidable (_ = _))

theorem Policy.same_equivalence : Equivalence Policy.Same :=
  ⟨fun _ => rfl, fun h => h.symm, fun h h' => h.trans h'⟩

structure Permission where
  agentId : Uuid
  resourceType : ResourceType
  resourceRef : String
  deriving DecidableEq

structure Procedure where
  procedureId : Uuid
  name : String
  content : String := ""
  body : Option String := none
  sqlIdent : Option String := none
  buildStatus : BuildStatus := .built
  generation : Nat := 1
  isActive : Bool := true
  llmOverride : Option Json := none
  updatedAt : Time := 0
  deriving DecidableEq

structure Function where
  functionId : Uuid
  name : String
  description : String := ""
  handler : Handler
  argsTemplate : Json := .obj []
  body : Option String := none
  paramSchema : Json := .obj []
  sqlIdent : Option String := none
  buildStatus : BuildStatus := .built
  createdByAgentId : Option Uuid := none
  isActive : Bool := true
  generation : Nat := 1
  llmOverride : Option Json := none
  mcpConnectionId : Option Uuid := none
  updatedAt : Time := 0
  deriving DecidableEq

/-- No field of the one row is distinct from the other's. -/
def Function.Same (f g : Function) : Prop :=
  { f with paramSchema := f.paramSchema.byValue } = { g with paramSchema := g.paramSchema.byValue }

instance (f g : Function) : Decidable (f.Same g) :=
  inferInstanceAs (Decidable (_ = _))

structure Binding where
  procedureId : Uuid
  functionId : Uuid
  deriving DecidableEq

structure ModelExperiment where
  experimentId : Uuid
  functionId : Uuid
  candidateProvider : String
  candidateModel : String
  canaryPercent : Int
  status : ExperimentStatus := .running
  minSampleSize : Int := 20
  baselineSuccessRate : Option Rat := none
  proposedByAgentId : Option Uuid := none
  reason : Option String := none
  deriving DecidableEq

structure ExecutionRule where
  agentId : Uuid
  action : RuleAction
  resource : String := "*"
  decision : RuleDecision
  generation : Nat := 1
  deriving DecidableEq

inductive OauthFlow where
  | authorizationCode | deviceCode
  deriving DecidableEq

structure Provider where
  providerId : Uuid
  name : String
  kind : ProviderKind := .openaiCompat
  baseUrl : String
  oauthFlow : OauthFlow := .authorizationCode
  oauthAuthUrl : Option String := none
  oauthScope : Option String := none
  oauthTokenUrl : Option String := none
  oauthDeviceUrl : Option String := none
  oauthClientId : Option String := none
  isEnabled : Bool := true
  allowPrivateNetwork : Bool := false
  purpose : ProviderPurpose := .chat
  embeddingModel : Option String := none
  responseFormatJsonObject : Bool := true
  createdAt : Time := 0
  deriving DecidableEq

/-- `llm_secrets`, each value as `decrypt_secret` gives it. -/
structure ProviderSecret where
  providerId : Uuid
  apiKey : Option String := none
  oauthClientSecret : Option String := none
  accessToken : Option String := none
  refreshToken : Option String := none
  expiresAt : Option Time := none
  deriving DecidableEq

structure ApiConnection where
  connectionId : Uuid
  name : String
  baseUrl : String
  authKind : Option AuthKind := none
  allowPrivateNetwork : Bool := false
  costPerCallUsd : Rat := 0
  isEnabled : Bool := true
  updatedAt : Time := 0
  deriving DecidableEq

structure ConnectionSecret where
  connectionId : Uuid
  apiKey : Option String
  deriving DecidableEq

structure ModelPrice where
  providerId : Uuid
  model : String
  inputPricePer1k : Rat
  outputPricePer1k : Rat
  deriving DecidableEq

/-- One row of `pg_proc` with the name of its schema. -/
structure PgProc where
  nspname : String
  proname : String
  isVolatile : Bool
  prosecdef : Bool
  deriving DecidableEq

inductive ProposalKind where
  | policyChange | createAgent | functionOverride | createFunction | updateFunction
  deriving DecidableEq

inductive ProposalStatus where
  | pending | approved | rejected | stale
  deriving DecidableEq

structure ChangeProposal where
  proposalId : Uuid
  agentId : Uuid
  taskId : Uuid
  kind : ProposalKind := .policyChange
  proposedChanges : Json
  reason : Option String := none
  baseGeneration : Nat
  targetAgentId : Option Uuid := none
  targetFunctionId : Option Uuid := none
  status : ProposalStatus := .pending
  decidedAt : Option Time := none
  decidedReply : Option String := none
  deriving DecidableEq

inductive FixKind where
  | revokePermission | deactivateAgent
  deriving DecidableEq

structure FixProposal where
  fixId : Uuid
  agentId : Uuid
  taskId : Uuid
  fixKind : FixKind
  targetAgentId : Uuid
  detail : Json
  reason : Option String := none
  status : ProposalStatus := .pending
  decidedAt : Option Time := none
  decidedReply : Option String := none
  deriving DecidableEq

structure Memory where
  memoryId : Uuid
  agentId : Uuid
  subjectId : Option String := none
  memoryType : String
  content : String
  importance : Rat
  sourceSessionId : Option Uuid := none
  sourceTaskId : Option Uuid := none
  createdAt : Time
  lastAccessedAt : Option Time := none
  expiresAt : Option Time := none
  embedding : Option (List (Option Float8)) := none
  embeddingModel : Option String := none
  deriving DecidableEq

inductive CapabilityType where
  | agent | function | procedure | plan
  deriving DecidableEq

inductive Lifecycle where
  | draft | testing | reviewPending | published | deprecated | disabled
  deriving DecidableEq

/-- `capability_index`. -/
structure Capability where
  capabilityId : Uuid
  capabilityType : CapabilityType
  sourceId : Option Uuid
  name : String
  description : String := ""
  searchDocument : String := ""
  metadata : Json := .obj []
  lifecycle : Lifecycle := .published
  contentHash : String := ""
  embedding : Option (List (Option Float8)) := none
  embeddingModel : Option String := none
  deriving DecidableEq

inductive CallStatus where
  | queued | inFlight | harvested | lost
  deriving DecidableEq

inductive EmbeddingTarget where
  | agent (id : Uuid) | memory (id : Uuid) | capability (id : Uuid)
  deriving DecidableEq

structure EmbeddingCall where
  callId : Uuid
  target : EmbeddingTarget
  providerId : Uuid
  model : Option String
  url : String
  requestHeaders : Json := .obj []
  requestBody : Json := .obj []
  allowPrivate : Bool := false
  status : CallStatus := .queued
  createdAt : Time := 0
  updatedAt : Time := 0
  deriving DecidableEq

structure ProviderProbe where
  callId : Uuid
  providerId : Uuid
  url : String
  requestHeaders : Json := .obj []
  allowPrivate : Bool := false
  status : CallStatus := .queued
  createdAt : Time := 0
  updatedAt : Time := 0
  deriving DecidableEq

inductive OauthOperation where
  | tokenExchange | deviceAuthorization | devicePoll | refresh
  deriving DecidableEq

structure OauthCall where
  callId : Uuid
  providerId : Uuid
  state : String
  url : String
  requestHeaders : Json := .obj []
  requestBody : Json := .obj []
  allowPrivate : Bool := false
  operation : OauthOperation := .tokenExchange
  deviceSessionId : Option Uuid := none
  status : CallStatus := .queued
  createdAt : Time := 0
  updatedAt : Time := 0
  deriving DecidableEq

inductive DeviceStatus where
  | starting | awaitingUser | connected | denied | expired | error
  deriving DecidableEq

structure OauthDeviceSession where
  sessionId : Uuid
  providerId : Uuid
  deviceCode : Option String := none
  status : DeviceStatus := .starting
  intervalSeconds : Nat := 5
  expiresAt : Option Time := none
  nextPollAt : Option Time := none
  deriving DecidableEq

structure OauthState where
  state : String
  providerId : Uuid
  deriving DecidableEq

structure Schedule where
  scheduleId : Uuid
  name : String
  agentId : Uuid
  goal : String
  intervalSeconds : {n : Nat // 0 < n}
  nextRunAt : Time
  isActive : Bool := true
  maxRuns : Option Nat := none
  runCount : Nat := 0
  endsAt : Option Time := none
  lastRunAt : Option Time := none
  lastSessionId : Option Uuid := none
  maxCostUsd : Option Rat := none
  spentCostUsd : Rat := 0
  deriving DecidableEq

/-- `user_agent_preferences`. -/
structure UserPreference where
  userId : Uuid
  agentId : Uuid
  llmConfig : Json
  deriving DecidableEq

/-- A chat session and the user it belongs to. -/
structure ChatOwner where
  sessionId : Uuid
  userId : Uuid
  deriving DecidableEq

structure Project where
  projectId : Uuid
  name : String := ""
  agentId : Option Uuid := none
  presetPrompt : Option String := none
  isActive : Bool := true
  deriving DecidableEq

/-- The tables operators edit, with the queues that belong to them. -/
structure Config where
  agents : List Agent := []
  policies : List Policy := []
  policyHistory : List Policy := []
  permissions : List Permission := []
  procedures : List Procedure := []
  procedureHistory : List Procedure := []
  functions : List Function := []
  functionHistory : List Function := []
  bindings : List Binding := []
  experiments : List ModelExperiment := []
  rules : List ExecutionRule := []
  providers : List Provider := []
  providerSecrets : List ProviderSecret := []
  connections : List ApiConnection := []
  connectionSecrets : List ConnectionSecret := []
  prices : List ModelPrice := []
  sqlSandboxAllowlist : List String := []
  sqlFunctionAllowlist : List String := []
  changeProposals : List ChangeProposal := []
  fixProposals : List FixProposal := []
  memories : List Memory := []
  capabilities : List Capability := []
  embeddingCalls : List EmbeddingCall := []
  providerProbes : List ProviderProbe := []
  oauthCalls : List OauthCall := []
  oauthDeviceSessions : List OauthDeviceSession := []
  oauthStates : List OauthState := []
  schedules : List Schedule := []
  userPreferences : List UserPreference := []
  chatOwners : List ChatOwner := []
  projects : List Project := []
  pgProc : List PgProc := []
  nextId : Uuid := 1

namespace Config

def agent? (c : Config) (id : Uuid) : Option Agent :=
  c.agents.find? (·.agentId = id)

def policy? (c : Config) (id : Uuid) : Option Policy :=
  c.policies.find? (·.agentId = id)

def function? (c : Config) (id : Uuid) : Option Function :=
  c.functions.find? (·.functionId = id)

def procedure? (c : Config) (id : Uuid) : Option Procedure :=
  c.procedures.find? (·.procedureId = id)

def provider? (c : Config) (id : Uuid) : Option Provider :=
  c.providers.find? (·.providerId = id)

def connection? (c : Config) (id : Uuid) : Option ApiConnection :=
  c.connections.find? (·.connectionId = id)

end Config

end Allgres
