import Allgres.Postgres
import Allgres.Rows
import Allgres.Url

/-! The capability index, which triggers keep in step with the agents, functions
and procedures, and the embedding calls queued for agents, memories and
capabilities. -/

namespace Allgres

open Rows

def embeddingProvider? (c : Config) : Option Provider :=
  (sortBy (·.createdAt) (c.providers.filter fun p =>
    p.purpose = .embedding ∧ p.isEnabled)).head?

def embeddingsUrl (p : Provider) : String :=
  p.baseUrl ++ "/embeddings"

def contentTypeJson : Json :=
  .object [("content-type", .str "application/json")]

/-- The common body of `queue_agent_embedding`, `queue_memory_embedding` and
`queue_capability_embedding`: a queued row of the same target is replaced. -/
def queueEmbedding (c : Config) (target : EmbeddingTarget) (input : Option String) (now : Time) :
    Config :=
  match embeddingProvider? c, input with
  | some p, some input =>
    if (checkOutboundUrl (some (embeddingsUrl p)) p.allowPrivateNetwork).isSome then c
    else
      let others := c.embeddingCalls.filter fun e => ¬ (e.target = target ∧ e.status = .queued)
      let call : EmbeddingCall :=
        { callId := c.nextId
          target
          providerId := p.providerId
          model := p.embeddingModel
          url := embeddingsUrl p
          requestHeaders := contentTypeJson
          requestBody := .object [("model", .ofText p.embeddingModel),
            ("input", .str (left input 8000))]
          allowPrivate := p.allowPrivateNetwork
          createdAt := now
          updatedAt := now }
      { c with embeddingCalls := others ++ [call], nextId := c.nextId + 1 }
  | _, _ => c

def queueAgentEmbedding (c : Config) (agentId : Uuid) (now : Time) : Config :=
  let input := (c.agent? agentId).map fun a =>
    a.name ++ ": " ++ orEmpty ((c.policy? agentId).map (·.systemPrompt))
  queueEmbedding c (.agent agentId) input now

def queueMemoryEmbedding (c : Config) (memoryId : Uuid) (now : Time) : Config :=
  let input := (c.memories.find? (·.memoryId = memoryId)).map fun m =>
    m.memoryType ++ ": " ++ m.content
  queueEmbedding c (.memory memoryId) input now

def queueCapabilityEmbedding (c : Config) (capabilityId : Uuid) (now : Time) : Config :=
  let published := c.capabilities.find? fun k =>
    k.capabilityId = capabilityId ∧ k.lifecycle = .published
  queueEmbedding c (.capability capabilityId) (published.map (·.searchDocument)) now

/-- One row of the tables behind the index. -/
structure CapabilitySource where
  type : CapabilityType
  sourceId : Option Uuid
  name : String
  description : String
  metadata : Json
  lifecycle : Lifecycle

def CapabilityType.text : CapabilityType → String
  | agent => "agent" | function => "function" | procedure => "procedure" | plan => "plan"

def BuildStatus.text : BuildStatus → String
  | pending => "pending" | building => "building" | built => "built" | failed => "failed"

def Handler.text : Handler → String
  | httpGet => "http_get" | plpgsql => "plpgsql" | mcpCall => "mcp_call"

def Handler.risk : Handler → String
  | httpGet => "external_read" | plpgsql => "database_write" | mcpCall => "external_call"

def sourceLifecycle (isActive built : Bool) : Lifecycle :=
  if isActive ∧ built then .published else if isActive then .draft else .disabled

def agentSource (c : Config) (a : Agent) : CapabilitySource :=
  { type := .agent
    sourceId := some a.agentId
    name := a.name
    description := orEmpty ((c.policy? a.agentId).map (·.systemPrompt))
    metadata := .object [("is_system", .bool a.isSystem),
      ("input_schema", .object [("message", .str "string")]), ("risk", .str "delegation")]
    lifecycle := if a.isActive then .published else .disabled }

def functionSource (f : Function) : CapabilitySource :=
  { type := .function
    sourceId := some f.functionId
    name := f.name
    description := f.description
    metadata := .object [("handler", .str f.handler.text), ("param_schema", f.paramSchema),
      ("args_template", f.argsTemplate), ("build_status", .str f.buildStatus.text),
      ("generation", .ofInt f.generation), ("risk", .str f.handler.risk),
      ("requires_approval", .bool (f.handler != .httpGet))]
    lifecycle := sourceLifecycle f.isActive (f.buildStatus = .built) }

def procedureSource (p : Procedure) : CapabilitySource :=
  { type := .procedure
    sourceId := some p.procedureId
    name := p.name
    description := p.content
    metadata := .object [("generation", .ofInt p.generation),
      ("build_status", .str p.buildStatus.text),
      ("input_schema", .object [("args", .str "object")]), ("risk", .str "database_write"),
      ("requires_approval", .bool true)]
    lifecycle := sourceLifecycle p.isActive (p.buildStatus = .built) }

def capabilityDocument (s : CapabilitySource) : String :=
  "type: " ++ s.type.text ++ "\nname: " ++ s.name ++ "\ndescription: " ++ s.description ++
    "\nmetadata: " ++ s.metadata.render

def upsertCapability (pg : Postgres) (now : Time) (c : Config) (s : CapabilitySource) : Config :=
  let document := capabilityDocument s
  let hash := pg.md5 document
  match c.capabilities.find? fun k => k.capabilityType = s.type ∧ s.sourceId.isSome ∧
      k.sourceId = s.sourceId with
  | none =>
    let row : Capability :=
      { capabilityId := c.nextId
        capabilityType := s.type
        sourceId := s.sourceId
        name := s.name
        description := s.description
        searchDocument := document
        metadata := s.metadata
        lifecycle := s.lifecycle
        contentHash := hash }
    let c' := { c with capabilities := c.capabilities ++ [row], nextId := c.nextId + 1 }
    queueCapabilityEmbedding c' row.capabilityId now
  | some old =>
    let same := old.contentHash = hash
    let row : Capability :=
      { old with
        name := s.name
        description := s.description
        searchDocument := document
        metadata := s.metadata
        lifecycle := s.lifecycle
        contentHash := hash
        embedding := if same then old.embedding else none
        embeddingModel := if same then old.embeddingModel else none }
    let isRow := fun k : Capability => decide (k.capabilityId = old.capabilityId)
    let c' := { c with capabilities := update isRow (fun _ => row) c.capabilities }
    if same ∧ old.embedding.isSome then c' else queueCapabilityEmbedding c' old.capabilityId now

/-- The trigger function `capability_source_changed`. -/
def syncCapabilityIndex (pg : Postgres) (now : Time) (c : Config) : Config :=
  let sources := c.agents.map (agentSource c) ++ c.functions.map functionSource ++
    c.procedures.map procedureSource
  sources.foldl (upsertCapability pg now) c

/-- What the triggers write. -/
structure Indexed (c c' : Config) : Prop where
  eq : ∃ ks es n, c' = { c with capabilities := ks, embeddingCalls := es, nextId := n }

theorem Indexed.refl (c : Config) : Indexed c c :=
  ⟨c.capabilities, c.embeddingCalls, c.nextId, rfl⟩

theorem Indexed.trans {c c' c'' : Config} (h : Indexed c c') (h' : Indexed c' c'') :
    Indexed c c'' := by
  obtain ⟨_, _, _, rfl⟩ := h
  obtain ⟨ks, es, n, rfl⟩ := h'
  exact ⟨ks, es, n, rfl⟩

theorem queueEmbedding_indexed (c : Config) (target : EmbeddingTarget) (input : Option String)
    (now : Time) : Indexed c (queueEmbedding c target input now) := by
  unfold queueEmbedding
  split
  · split
    · exact Indexed.refl c
    · exact ⟨c.capabilities, _, _, rfl⟩
  · exact Indexed.refl c

theorem le_queueEmbedding_nextId {c : Config} {n : Nat} (target : EmbeddingTarget) (input : Option String)
    (now : Time) (h : n ≤ c.nextId) : n ≤ (queueEmbedding c target input now).nextId := by
  unfold queueEmbedding
  split
  · split
    · exact h
    · exact Nat.le_succ_of_le h
  · exact h

theorem upsertCapability_indexed (pg : Postgres) (now : Time) (c : Config) (s : CapabilitySource) :
    Indexed c (upsertCapability pg now c s) := by
  have hrow : ∀ ks n, Indexed c { c with capabilities := ks, nextId := n } :=
    fun ks n => ⟨ks, c.embeddingCalls, n, rfl⟩
  unfold upsertCapability
  dsimp only
  split
  · exact (hrow _ _).trans (queueEmbedding_indexed _ _ _ _)
  · split
    · exact hrow _ _
    · exact (hrow _ _).trans (queueEmbedding_indexed _ _ _ _)

theorem syncCapabilityIndex_indexed (pg : Postgres) (now : Time) (c : Config) :
    Indexed c (syncCapabilityIndex pg now c) := by
  unfold syncCapabilityIndex
  dsimp only
  generalize c.agents.map (agentSource c) ++ c.functions.map functionSource ++
    c.procedures.map procedureSource = sources
  induction sources generalizing c with
  | nil => exact Indexed.refl c
  | cons s sources ih => exact (upsertCapability_indexed pg now c s).trans (ih _)

end Allgres
