import Allgres.CapabilityGate
import Allgres.OperatorQueues
import Allgres.Complete
import Allgres.Watchdog

/-! The vectors of the capability index. A call carries the text its vector is computed from; it
is claimed, answered or lost while the documents of the index go on changing. -/

namespace Allgres

open Rows Raise Runs

section Completion

/-- The vector a body holds, or null where the exception block gives up on it. -/
def usableVector (body : Option String) : Option (List (Option Float8)) :=
  match queryVector (body.bind Json.parse) with
  | .ok v => if v = [] then none else some v
  | .error _ => none

def EmbeddingTarget.field : EmbeddingTarget → String × Json
  | agent id => ("agent_id", .str (uuidText id))
  | memory id => ("memory_id", .str (uuidText id))
  | capability id => ("capability_id", .str (uuidText id))

def storedModel (c : Config) (r : EmbeddingCall) : Option String :=
  (c.provider? r.providerId).bind fun p => r.model.map fun m => p.name ++ ":" ++ m

def storeVector (c : Config) (r : EmbeddingCall) (v : List (Option Float8)) : Config :=
  match r.target with
  | .agent id =>
    let embed := fun a : Agent => { a with embedding := some v, embeddingModel := storedModel c r }
    { c with agents := update (·.agentId = id) embed c.agents }
  | .memory id =>
    let embed := fun m : Memory => { m with embedding := some v, embeddingModel := storedModel c r }
    { c with memories := update (·.memoryId = id) embed c.memories }
  | .capability id =>
    let embed := fun k : Capability => { k with embedding := some v, embeddingModel := storedModel c r }
    { c with capabilities := update (·.capabilityId = id) embed c.capabilities }

def harvestEmbedding (now : Time) (callId : Uuid) (c : Config) : Config :=
  let harvest := fun r : EmbeddingCall => { r with status := .harvested, updatedAt := now }
  { c with embeddingCalls := update (·.callId = callId) harvest c.embeddingCalls }

def fnCompleteAgentEmbedding (pg : Postgres) (now : Time) (c : Config) (callId : Uuid)
    (status : Option Int) (body : Option String) : Except String (Config × Json) :=
  match c.embeddingCalls.find? (·.callId = callId) with
  | none => .error "fn_complete_agent_embedding: not found"
  | some r =>
    if r.status ≠ .inFlight then
      .ok (c, .object [("action", .str "stale"), ("reason", .str "call_not_in_flight"),
        ("status", .str r.status.text)])
    else if isSuccess status = false then
      .ok (harvestEmbedding now callId c, .object [("action", .str "error"),
        ("status", jsonOfStatus status)])
    else match usableVector body with
      | none => .ok (harvestEmbedding now callId c, .object [("action", .str "error"),
          ("reason", .str "no_embedding_in_response")])
      | some v => do
        let c' := harvestEmbedding now callId (storeVector c r v)
        pg.ensureVectorIndex c'
        pure (c', .object [("action", .str "stored"), r.target.field, ("dims", .ofInt v.length)])

/-- The call that an answer stores the vector of. -/
def answered (c : Config) (callId : Uuid) (status : Option Int) (body : Option String) :
    Option EmbeddingCall :=
  (c.embeddingCalls.find? (·.callId = callId)).filter fun r =>
    r.status = .inFlight ∧ isSuccess status ∧ (usableVector body).isSome

/-- The capability a call is for, and the text it sends. -/
def EmbeddingCall.input (r : EmbeddingCall) : Option (Uuid × Option String) :=
  match r.target with
  | .capability id => some (id, r.requestBody.text "input")
  | _ => none

end Completion

/-- The library, and for each vector stored in the index its row and the text it was computed
from, the last one first. -/
structure VectorIndex where
  library : Library
  stored : List (Uuid × Option String) := []

inductive VectorOp where
  | library (op : LibraryOp)
  | queue (id : Uuid)
  | claim (limit : Option Int) (locked : List Uuid)
  | complete (callId : Uuid) (status : Option Int) (body : Option String)
  | watchdog (seconds : Option Int)
  /-- The calls of a row that is deleted. -/
  | cascade (kept : EmbeddingCall → Bool)

structure VectorEvent where
  now : Time
  op : VectorOp

/-- The changes of the other tables leave the calls to the functions of this module. -/
def LibraryOp.besideCalls : LibraryOp → LibraryOp
  | .sourceChange change => .sourceChange fun c => { change c with embeddingCalls := c.embeddingCalls }
  | .elsewhere change => .elsewhere fun c => { change c with embeddingCalls := c.embeddingCalls }
  | op => op

namespace VectorIndex

/-- The index is empty before the first write. -/
def start (c : Config) : VectorIndex :=
  { library := { cfg := { c with
      capabilities := []
      embeddingCalls := [] } } }

def onConfig (w : VectorIndex) (f : Config → Config) : VectorIndex :=
  { w with library := { w.library with cfg := f w.library.cfg } }

def step (pg : Postgres) (w : VectorIndex) (e : VectorEvent) : VectorIndex :=
  match e.op with
  | .library op => { w with library := libraryStep pg w.library ⟨e.now, op.besideCalls⟩ }
  | .queue id => w.onConfig (queueCapabilityEmbedding · id e.now)
  | .claim limit locked => w.onConfig fun c => (fnClaimAgentEmbedding e.now limit locked c).1
  | .complete callId status body =>
    match fnCompleteAgentEmbedding pg e.now w.library.cfg callId status body with
    | .ok r =>
      { library := { w.library with cfg := r.1 }
        stored := ((answered w.library.cfg callId status body).bind (·.input)).toList ++ w.stored }
    | .error _ => w
  | .watchdog seconds => w.onConfig (reclaimOperatorCalls e.now seconds)
  | .cascade kept => w.onConfig fun c => { c with embeddingCalls := c.embeddingCalls.filter kept }

end VectorIndex

/-- The text a row's vector was computed from. -/
def vectorSource (stored : List (Uuid × Option String)) (id : Uuid) : Option String :=
  (stored.find? (·.1 = id)).bind (·.2)

/-- The part of a document that is embedded. -/
def embeddedText (document : String) : String :=
  left document 8000

/-- The vector of the row, if it has one, was computed from its document. -/
def Capability.FreshIn (stored : List (Uuid × Option String)) (k : Capability) : Prop :=
  k.embedding.isSome → vectorSource stored k.capabilityId = some (embeddedText k.searchDocument)

namespace VectorIndex

def PublishedFresh (w : VectorIndex) : Prop :=
  ∀ k ∈ w.library.cfg.capabilities, k.lifecycle = .published → k.FreshIn w.stored

end VectorIndex

/-- The sources that an operation writes into the index. -/
def LibraryOp.sources (pg : Postgres) (now : Time) (L : Library) : LibraryOp → List CapabilitySource
  | .upsert source => [source]
  | .sync => capabilitySources L.cfg
  | .sourceChange change => capabilitySources (Library.edited L.cfg change)
  | .rollback id version =>
    match L.version? id version, L.capability? id with
    | some v, some k =>
      if v.snapshot.metadata.has "generation" then
        match Library.rollbackSource pg now L.cfg k v.snapshot.metadata with
        | .ok c => capabilitySources c
        | .error _ => []
      else []
    | _, _ => []
  | _ => []

/-- A content that the hash takes for the source's begins with the same text. -/
def CapabilitySource.Recognised (pg : Postgres) (s : CapabilitySource) (hash document : String) : Prop :=
  hash = pg.md5 (capabilityDocument s) → embeddedText document = embeddedText (capabilityDocument s)

/-- No two contents of a row that a write compares have one hash and different texts. -/
def HashesApart (pg : Postgres) (c : Config) (sources : List CapabilitySource) : Prop :=
  ∀ s ∈ sources,
    (∀ k ∈ c.capabilities, s.describes k = true → s.Recognised pg k.contentHash k.searchDocument) ∧
      ∀ s' ∈ sources, s'.type = s.type → s'.sourceId = s.sourceId →
        s.Recognised pg (pg.md5 (capabilityDocument s')) (capabilityDocument s')

/-- An answer that is stored comes while the document begins with the text that was sent. -/
def TimelyAnswer (c : Config) (callId : Uuid) (status : Option Int) (body : Option String) : Prop :=
  ∀ sent ∈ (answered c callId status body).bind (·.input), ∀ k ∈ c.capabilities,
    k.capabilityId = sent.1 → sent.2 = some (embeddedText k.searchDocument)

def VectorIndex.Timely (pg : Postgres) (w : VectorIndex) (e : VectorEvent) : Prop :=
  match e.op with
  | .library op => HashesApart pg w.library.cfg (op.besideCalls.sources pg e.now w.library)
  | .complete callId status body => TimelyAnswer w.library.cfg callId status body
  | _ => True

section Writes

variable {pg : Postgres} {now : Time} {stored : List (Uuid × Option String)} {c c' : Config}
  {s : CapabilitySource} {sources all : List CapabilitySource} {k : Capability}

def AllFresh (stored : List (Uuid × Option String)) (c : Config) : Prop :=
  ∀ k ∈ c.capabilities, k.FreshIn stored

theorem AllFresh.congr (h : AllFresh stored c) (hks : c'.capabilities = c.capabilities) :
    AllFresh stored c' :=
  fun k hk => h k (hks ▸ hk)

theorem HashesApart.congr (h : HashesApart pg c sources) (hks : c'.capabilities = c.capabilities) :
    HashesApart pg c' sources :=
  fun s hs => ⟨fun k hk => (h s hs).1 k (hks ▸ hk), (h s hs).2⟩

theorem freshIn_of_none (h : k.embedding = none) : k.FreshIn stored := by
  intro hsome
  rw [h] at hsome
  cases hsome

/-- The row holds what the source writes. -/
structure CapabilitySource.WrittenTo (pg : Postgres) (s : CapabilitySource) (k : Capability) : Prop where
  type : k.capabilityType = s.type
  sourceId : k.sourceId = s.sourceId
  hash : k.contentHash = pg.md5 (capabilityDocument s)
  document : k.searchDocument = capabilityDocument s

/-- The row has the vector of a row that the source describes and whose hash is the source's. -/
def KeepsVector (pg : Postgres) (c : Config) (s : CapabilitySource) (k : Capability) : Prop :=
  ∃ old ∈ c.capabilities, s.describes old = true ∧ old.contentHash = pg.md5 (capabilityDocument s) ∧
    old.capabilityId = k.capabilityId ∧ old.embedding = k.embedding

theorem queueCapabilityEmbedding_capabilities (c : Config) (id : Uuid) (now : Time) :
    (queueCapabilityEmbedding c id now).capabilities = c.capabilities :=
  queueEmbedding_capabilities c _ _ now

theorem upsertCapability_rows (hk : k ∈ (upsertCapability pg now c s).capabilities) :
    k ∈ c.capabilities ∨ s.WrittenTo pg k ∧ (k.embedding.isSome → KeepsVector pg c s k) := by
  generalize hc : upsertCapability pg now c s = c' at hk
  unfold upsertCapability at hc
  dsimp only at hc
  split at hc
  · subst hc
    rw [queueCapabilityEmbedding_capabilities] at hk
    rcases List.mem_append.mp hk with hold | hnew
    · exact .inl hold
    · obtain rfl := List.mem_singleton.mp hnew
      exact .inr ⟨⟨rfl, rfl, rfl, rfl⟩, nofun⟩
  · rename_i old hold
    have hmem := List.mem_of_find?_eq_some hold
    have hdescribes : s.describes old = true := List.find?_some hold
    have hkey := of_decide_eq_true hdescribes
    have hrows : k ∈ update (·.capabilityId = old.capabilityId) (fun _ =>
        { old with
          name := s.name
          description := s.description
          searchDocument := capabilityDocument s
          metadata := s.metadata
          lifecycle := s.lifecycle
          contentHash := pg.md5 (capabilityDocument s)
          embedding := if old.contentHash = pg.md5 (capabilityDocument s) then old.embedding else none
          embeddingModel := if old.contentHash = pg.md5 (capabilityDocument s) then old.embeddingModel
            else none }) c.capabilities := by
      split at hc
      · subst hc
        exact hk
      · subst hc
        rw [queueCapabilityEmbedding_capabilities] at hk
        exact hk
    obtain ⟨k₀, hk₀, rfl⟩ := mem_update.mp hrows
    by_cases hid : k₀.capabilityId = old.capabilityId
    · rw [if_pos (decide_eq_true hid)]
      refine .inr ⟨⟨hkey.1, hkey.2.2, rfl, rfl⟩, fun hsome => ?_⟩
      dsimp only at hsome
      split at hsome
      · rename_i hhash
        exact ⟨old, hmem, hdescribes, hhash, rfl, (if_pos hhash).symm⟩
      · cases hsome
    · rw [if_neg (by simpa using hid)]
      exact .inl hk₀

/-- A write that keeps a vector keeps the text it was computed from. -/
theorem AllFresh.upsert (h : AllFresh stored c)
    (hs : ∀ k ∈ c.capabilities, s.describes k = true → s.Recognised pg k.contentHash k.searchDocument) :
    AllFresh stored (upsertCapability pg now c s) := by
  intro k hk
  rcases upsertCapability_rows hk with hold | ⟨hwritten, hkeeps⟩
  · exact h k hold
  · intro hsome
    obtain ⟨old, hmem, hdescribes, hhash, hid, hvector⟩ := hkeeps hsome
    have hsource := h old hmem (hvector ▸ hsome)
    have htext := hs old hmem hdescribes hhash
    rw [← hid, hwritten.document, hsource, htext]

theorem HashesApart.upsert (h : HashesApart pg c all) (hs : s ∈ all) :
    HashesApart pg (upsertCapability pg now c s) all := by
  intro s' hs'
  refine ⟨fun k hk hdescribes => ?_, (h s' hs').2⟩
  rcases upsertCapability_rows hk with hold | ⟨hwritten, -⟩
  · exact (h s' hs').1 k hold hdescribes
  · obtain ⟨htype, -, hsource⟩ := of_decide_eq_true hdescribes
    have hpair := (h s' hs').2 s hs (hwritten.type.symm.trans htype) (hwritten.sourceId.symm.trans hsource)
    rw [hwritten.hash, hwritten.document]
    exact hpair

theorem AllFresh.upserts (h : AllFresh stored c) (hapart : HashesApart pg c all)
    (hsub : ∀ s ∈ sources, s ∈ all) : AllFresh stored (sources.foldl (upsertCapability pg now) c) := by
  induction sources generalizing c with
  | nil => exact h
  | cons s sources ih =>
    have hs := hsub s List.mem_cons_self
    have hrest : ∀ s ∈ sources, s ∈ all := fun s' hs' => hsub s' (List.mem_cons_of_mem _ hs')
    exact ih (h.upsert (hapart s hs).1) (hapart.upsert hs) hrest

theorem AllFresh.sync (h : AllFresh stored c) (hapart : HashesApart pg c (capabilitySources c)) :
    AllFresh stored (syncCapabilityIndex pg now c) :=
  h.upserts hapart fun _ hs => hs

theorem capabilitySources_sync (pg : Postgres) (now : Time) (c : Config) :
    capabilitySources (syncCapabilityIndex pg now c) = capabilitySources c := by
  obtain ⟨ks, es, n, h⟩ := (syncCapabilityIndex_indexed pg now c).eq
  rw [h]
  rfl

/-- The index is written anew from changed tables. -/
def Resynced (pg : Postgres) (now : Time) (c c' : Config) : Prop :=
  ∃ d, d.capabilities = c.capabilities ∧ c' = syncCapabilityIndex pg now d

theorem resynced_sync {d : Config} (hks : d.capabilities = c.capabilities) :
    Resynced pg now c (syncCapabilityIndex pg now d) :=
  ⟨d, hks, rfl⟩

theorem AllFresh.resynced (h : AllFresh stored c) (hc : Resynced pg now c c')
    (hapart : HashesApart pg c (capabilitySources c')) : AllFresh stored c' := by
  obtain ⟨d, hks, rfl⟩ := hc
  rw [capabilitySources_sync] at hapart
  exact (h.congr hks).sync (hapart.congr hks)

theorem fnUpdateFunction_resynced (id : Uuid) (description body : Option String)
    (paramSchema : Option Json) :
    Returns (fun r => Resynced pg now c r.1) (fnUpdateFunction pg now c id description body paramSchema) := by
  unfold fnUpdateFunction
  split
  · exact returns_error _
  · refine returns_seq fun _ => returns_guard fun _ => returns_pure ?_
    exact resynced_sync rfl

theorem fnSetProcedure_resynced (id : Uuid) (content : Option String) (enabled : Option Bool)
    (body : Option String) :
    Returns (fun r => Resynced pg now c r.1) (fnSetProcedure pg now c id content enabled body) := by
  unfold fnSetProcedure
  split
  · exact returns_error _
  · refine returns_guard fun _ => returns_seq fun _ => returns_pure ?_
    exact resynced_sync rfl

theorem rollbackSource_resynced {metadata : Json} :
    Returns (fun c' => c' = c ∨ metadata.has "generation" = true ∧ Resynced pg now c c')
      (Library.rollbackSource pg now c k metadata) := by
  unfold Library.rollbackSource
  split
  · rename_i hgeneration
    split
    · refine returns_seq fun g => ?_
      split
      · rename_i source n _
        have hset : Returns (fun r => Resynced pg now c r.1) (fnRollbackProcedure pg now c source n) := by
          unfold fnRollbackProcedure
          split
          · exact returns_error _
          · exact fnSetProcedure_resynced _ _ _ _
        exact returns_bind hset fun _ hr => returns_pure (.inr ⟨hgeneration, hr⟩)
      · exact returns_error _
    · refine returns_seq fun g => ?_
      split
      · rename_i source n _
        have hset : Returns (fun r => Resynced pg now c r.1) (fnRollbackFunction pg now c source n) := by
          unfold fnRollbackFunction
          split
          · exact returns_error _
          · exact fnUpdateFunction_resynced _ _ _ _
        exact returns_bind hset fun _ hr => returns_pure (.inr ⟨hgeneration, hr⟩)
      · exact returns_error _
    · exact returns_pure (.inl rfl)
  · exact returns_pure (.inl rfl)

theorem AllFresh.restore (h : AllFresh stored c) (id : Uuid) (snapshot : CapabilitySnapshot) :
    AllFresh stored { c with
      capabilities := update (·.capabilityId = id) (Library.restore · snapshot) c.capabilities } := by
  intro k hk
  obtain ⟨k₀, hk₀, rfl⟩ := mem_update.mp hk
  split
  · exact freshIn_of_none rfl
  · exact h k₀ hk₀

theorem fresh_rollbackCapability {L : Library} {id : Uuid} {version : Int} (h : AllFresh stored L.cfg)
    (hapart : HashesApart pg L.cfg ((LibraryOp.rollback id version).sources pg now L)) :
    Returns (fun r => AllFresh stored r.1.cfg) (L.rollbackCapability pg now id version) := by
  unfold Library.rollbackCapability
  split
  · exact returns_error _
  · rename_i v hv
    have hfinish : ∀ c, AllFresh stored c → AllFresh stored (queueCapabilityEmbedding { c with
        capabilities := update (·.capabilityId = id) (Library.restore · v.snapshot) c.capabilities } id now) :=
      fun c hc => (hc.restore id v.snapshot).congr (queueCapabilityEmbedding_capabilities _ _ _)
    split
    · rename_i k hk
      intro r hr
      obtain ⟨c, hc, hr⟩ := bind_eq_ok.mp hr
      obtain rfl := Except.ok.inj hr
      apply hfinish c
      rcases rollbackSource_resynced c hc with rfl | ⟨hgeneration, hresynced⟩
      · exact h
      · apply h.resynced hresynced
        unfold LibraryOp.sources at hapart
        simp only [hv, hk, hgeneration, if_true, hc] at hapart
        exact hapart
    · exact returns_pure (hfinish _ h)

theorem fresh_transitionCapability {L : Library} {id : Uuid} {lifecycle : Option String}
    {testResult : Option Json} {note : Option String} (h : AllFresh stored L.cfg) :
    Returns (fun r => AllFresh stored r.1.cfg) (L.transitionCapability id lifecycle testResult note) := by
  refine returns_seq fun r => returns_pure ?_
  intro k hk
  obtain ⟨k₀, hk₀, rfl⟩ := mem_update.mp hk
  split
  · exact h k₀ hk₀
  · exact h k₀ hk₀

theorem fresh_libraryStep {L : Library} {e : LibraryEvent} (h : AllFresh stored L.cfg)
    (hapart : HashesApart pg L.cfg (e.op.sources pg e.now L)) :
    AllFresh stored (libraryStep pg L e).cfg := by
  obtain ⟨now, op⟩ := e
  cases op with
  | upsert source => exact h.upsert (hapart source (List.mem_singleton.mpr rfl)).1
  | sync => exact h.sync hapart
  | evaluate id =>
    apply Course.afterReply_of_returns (P := fun L => AllFresh stored L.cfg) _ h
    exact returns_seq fun _ => returns_pure h
  | transition id lifecycle testResult note =>
    exact Course.afterReply_of_returns (P := fun L => AllFresh stored L.cfg)
      (fresh_transitionCapability h) h
  | rollback id version =>
    exact Course.afterReply_of_returns (P := fun L => AllFresh stored L.cfg)
      (fresh_rollbackCapability h hapart) h
  | sourceChange change =>
    have hks := Course.edited_capabilities L.cfg change
    exact (h.congr hks).sync (hapart.congr hks)
  | elsewhere change => exact h.congr (Course.edited_capabilities L.cfg change)
  | searched change => exact h

end Writes

section Answers

variable {pg : Postgres} {now : Time} {stored : List (Uuid × Option String)} {c : Config}
  {callId : Uuid} {status : Option Int} {body : Option String}

theorem fnCompleteAgentEmbedding_cases {r : Config × Json}
    (h : fnCompleteAgentEmbedding pg now c callId status body = .ok r) :
    r.1.capabilities = c.capabilities ∧ answered c callId status body = none ∨
      ∃ call v, answered c callId status body = some call ∧
        r.1.capabilities = (storeVector c call v).capabilities := by
  unfold fnCompleteAgentEmbedding at h
  unfold answered
  split at h
  · cases h
  · rename_i call hcall
    rw [hcall, Option.filter_some]
    split at h
    · rename_i hstatus
      obtain rfl := Except.ok.inj h
      exact .inl ⟨rfl, if_neg fun hp => hstatus (of_decide_eq_true hp).1⟩
    · rename_i hstatus
      split at h
      · rename_i hfailed
        obtain rfl := Except.ok.inj h
        refine .inl ⟨rfl, if_neg fun hp => ?_⟩
        rw [(of_decide_eq_true hp).2.1] at hfailed
        cases hfailed
      · rename_i hsuccess
        split at h
        · rename_i hvector
          obtain rfl := Except.ok.inj h
          refine .inl ⟨rfl, if_neg fun hp => ?_⟩
          have hsome := (of_decide_eq_true hp).2.2
          rw [hvector] at hsome
          cases hsome
        · rename_i v hvector
          obtain ⟨_, _, h⟩ := bind_eq_ok.mp h
          obtain rfl := Except.ok.inj h
          have hkept : call.status = .inFlight ∧ isSuccess status ∧ (usableVector body).isSome := by
            refine ⟨by simpa using hstatus, by simpa using hsuccess, ?_⟩
            rw [hvector]
            rfl
          exact .inr ⟨call, v, if_pos (decide_eq_true hkept), rfl⟩

theorem vectorSource_cons {id i : Uuid} {text : Option String} :
    vectorSource ((i, text) :: stored) id = if i = id then text else vectorSource stored id := by
  unfold vectorSource
  rw [List.find?_cons]
  by_cases h : i = id
  · subst h
    simp
  · simp [h]

/-- A timely answer stores a vector of the text that the row has. -/
theorem AllFresh.complete {r : Config × Json} (h : AllFresh stored c)
    (hr : fnCompleteAgentEmbedding pg now c callId status body = .ok r)
    (htimely : TimelyAnswer c callId status body) :
    AllFresh (((answered c callId status body).bind (·.input)).toList ++ stored) r.1 := by
  rcases fnCompleteAgentEmbedding_cases hr with ⟨hks, hnone⟩ | ⟨call, v, hcall, hks⟩
  · rw [hnone]
    exact h.congr hks
  · unfold TimelyAnswer at htimely
    rw [hcall, Option.bind_some] at htimely ⊢
    apply AllFresh.congr _ hks
    unfold EmbeddingCall.input at htimely ⊢
    unfold storeVector
    cases ht : call.target with
    | agent id => exact h
    | memory id => exact h
    | capability id =>
      rw [ht] at htimely
      have hsent := htimely _ rfl
      intro k hk
      obtain ⟨k₀, hk₀, rfl⟩ := mem_update.mp hk
      by_cases hid : k₀.capabilityId = id
      · rw [if_pos (decide_eq_true hid)]
        intro _
        exact (vectorSource_cons.trans (if_pos hid.symm)).trans (hsent k₀ hk₀ hid)
      · rw [if_neg (by simpa using hid)]
        intro hsome
        exact (vectorSource_cons.trans (if_neg (Ne.symm hid))).trans (h k₀ hk₀ hsome)

end Answers

namespace VectorIndex

variable {pg : Postgres} {w : VectorIndex}

theorem fresh_step {e : VectorEvent} (h : AllFresh w.stored w.library.cfg) (ht : w.Timely pg e) :
    AllFresh (w.step pg e).stored (w.step pg e).library.cfg := by
  obtain ⟨now, op⟩ := e
  cases op with
  | library op => exact fresh_libraryStep h ht
  | queue id => exact h.congr (queueCapabilityEmbedding_capabilities _ _ _)
  | claim limit locked => exact h.congr rfl
  | complete callId status body =>
    unfold step
    dsimp only
    split
    · rename_i r hr
      exact h.complete hr ht
    · exact h
  | watchdog seconds => exact h.congr rfl
  | cascade kept => exact h.congr rfl

/-- While every stored answer is timely, the vectors of the published rows are those of their
documents. -/
theorem run_fresh (pg : Postgres) (c : Config) (es : List VectorEvent)
    (h : Along (step pg) (Timely pg) (start c) es) :
    Along (step pg) (fun w e => (w.step pg e).PublishedFresh) (start c) es := by
  have hrun : ∀ (es : List VectorEvent) (w : VectorIndex), AllFresh w.stored w.library.cfg →
      Along (step pg) (Timely pg) w es →
      Along (step pg) (fun w e => (w.step pg e).PublishedFresh) w es := by
    intro es
    induction es with
    | nil => exact fun _ _ _ => trivial
    | cons e es ih =>
      rintro w hw ⟨he, hes⟩
      have hnext := fresh_step hw he
      exact ⟨fun k hk _ => hnext k hk, ih _ hnext hes⟩
  exact hrun es _ nofun h

end VectorIndex

/-- An agent, and the provider of the vectors. -/
def embeddedConfig : Config :=
  { scoutConfig with
    providers := [{ providerId := 7
                    name := "vectors"
                    baseUrl := "https://vec.example"
                    purpose := .embedding
                    embeddingModel := some "e" }] }

def vectorBody : Option String :=
  some "\x7b\"data\":[\x7b\"embedding\":[1]\x7d]\x7d"

instance (c : Config) (callId : Uuid) (status : Option Int) (body : Option String) :
    Decidable (TimelyAnswer c callId status body) :=
  inferInstanceAs (Decidable (∀ sent ∈ (answered c callId status body).bind (·.input),
    ∀ k ∈ c.capabilities, k.capabilityId = sent.1 → sent.2 = some (embeddedText k.searchDocument)))

instance (pg : Postgres) (s : CapabilitySource) (hash document : String) :
    Decidable (s.Recognised pg hash document) :=
  if h : document = capabilityDocument s then .isTrue fun _ => congrArg embeddedText h
  else inferInstanceAs (Decidable (_ → _))

instance (pg : Postgres) (c : Config) (sources : List CapabilitySource) :
    Decidable (HashesApart pg c sources) :=
  inferInstanceAs (Decidable (∀ s ∈ sources, _ ∧ _))

instance (pg : Postgres) (w : VectorIndex) (e : VectorEvent) : Decidable (w.Timely pg e) := by
  unfold VectorIndex.Timely
  split <;> infer_instance

def reworded (c : Config) : Config :=
  { c with policies := [{ agentId := 1, systemPrompt := "look away" }] }

/-- The row and its call get the ids 2 and 3; the agent is given more steps while the call is in
flight, and another prompt once it is answered. -/
def embeddedRun : List VectorEvent :=
  [⟨1, .library .sync⟩, ⟨2, .claim none []⟩,
    ⟨3, .library (.sourceChange fun c =>
      { c with policies := c.policies.map (PolicyChange.apply { maxSteps := some 40 }) })⟩,
    ⟨4, .complete 3 (some 200) vectorBody⟩, ⟨5, .library (.sourceChange reworded)⟩, ⟨6, .claim none []⟩,
    ⟨7, .complete 5 (some 200) vectorBody⟩]

theorem embedded_fresh :
    Along (VectorIndex.step bareServer) (fun w e => (w.step bareServer e).PublishedFresh)
      (VectorIndex.start embeddedConfig) embeddedRun ∧
    (run (VectorIndex.step bareServer) (VectorIndex.start embeddedConfig) embeddedRun).stored.map
      (fun v => (v.1, v.2.isSome)) = [(2, true), (2, true)] ∧
    (run (VectorIndex.step bareServer) (VectorIndex.start embeddedConfig)
      embeddedRun).library.cfg.capabilities.map (fun k => (k.lifecycle, k.embedding.isSome)) =
        [(.published, true)] :=
  ⟨VectorIndex.run_fresh bareServer embeddedConfig embeddedRun (by decide +kernel), by decide +kernel,
    by decide +kernel⟩

/-- The prompt changes while the call is in flight. -/
def overtakenRun : List VectorEvent :=
  [⟨1, .library .sync⟩, ⟨2, .claim none []⟩, ⟨3, .library (.sourceChange reworded)⟩,
    ⟨4, .complete 3 (some 200) vectorBody⟩]

theorem overtaken_vector_stale :
    ¬ ∀ (pg : Postgres) (c : Config) (es : List VectorEvent),
      Along (VectorIndex.step pg) (fun w e => (w.step pg e).PublishedFresh) (VectorIndex.start c) es := by
  intro h
  obtain ⟨-, -, -, hlast, -⟩ := h bareServer embeddedConfig overtakenRun
  generalize hw : VectorIndex.step bareServer _ _ = w at hlast
  have hstale : ∃ k ∈ w.library.cfg.capabilities, k.lifecycle = .published ∧ k.embedding.isSome ∧
      vectorSource w.stored k.capabilityId ≠ some (embeddedText k.searchDocument) := by
    subst hw
    decide +kernel
  obtain ⟨k, hk, hpublished, hsome, hstale⟩ := hstale
  exact hstale (hlast k hk hpublished hsome)

end Allgres
