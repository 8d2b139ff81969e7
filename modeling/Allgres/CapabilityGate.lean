import Allgres.CapabilityLibrary

/-! Capabilities that a transition has moved to another lifecycle than `published`, and what
publishes them again. -/

namespace Allgres

open Rows Raise Runs

def capabilitySources (c : Config) : List CapabilitySource :=
  c.agents.map (agentSource c) ++ c.functions.map functionSource ++ c.procedures.map procedureSource

def CapabilitySource.describes (s : CapabilitySource) (k : Capability) : Bool :=
  k.capabilityType = s.type ∧ s.sourceId.isSome ∧ k.sourceId = s.sourceId

namespace Course

/-- The last transition of the capability has led to another lifecycle than `published`. -/
def withheld (x : Course) (id : Uuid) : Bool :=
  (x.past.find? (·.capabilityId = id)).any (·.target != .published)

/-- The source would write `published` over a withheld row. -/
def overridden (x : Course) (c : Config) (s : CapabilitySource) : Bool :=
  s.lifecycle = .published ∧ c.capabilities.any fun k => s.describes k && x.withheld k.capabilityId

def settled (x : Course) (c : Config) : Bool :=
  (capabilitySources c).all fun s => !x.overridden c s

/-- No source that is published describes a withheld row when the index is written, and no
withheld row is rolled back. -/
def deferent (x : Course) (e : LibraryEvent) : Bool :=
  match e.op with
  | .upsert source => !x.overridden x.library.cfg source
  | .sync => x.settled x.library.cfg
  | .sourceChange change => x.settled (Library.edited x.library.cfg change)
  | .rollback id version => (x.library.version? id version).all fun v => !x.withheld id &&
      (!v.snapshot.metadata.has "generation" || x.settled x.library.cfg)
  | _ => true

/-- The one way back that the lifecycle has: a transition from `review_pending` that names a
passing evaluation of the content of the row. -/
def Gate (x : Course) (op : LibraryOp) (id : Uuid) : Prop :=
  ∃ testResult note k e, op = .transition id (some "published") testResult note ∧
    x.library.capability? id = some k ∧ k.lifecycle = .reviewPending ∧ e ∈ x.library.evaluations ∧
    e.capabilityId = id ∧ e.passed = true ∧ e.contentHash = k.contentHash

def Gated (pg : Postgres) (x : Course) (e : LibraryEvent) : Prop :=
  ∀ k ∈ (x.step pg e).library.cfg.capabilities, x.withheld k.capabilityId = true →
    k.lifecycle = .published → x.Gate e.op k.capabilityId

end Course

section Writes

variable {pg : Postgres} {now : Time} {W : Uuid → Prop} {c c' : Config} {s : CapabilitySource}

/-- The rows of the capabilities in `W` are not published. -/
structure Withheld (W : Uuid → Prop) (c : Config) : Prop where
  rows : ∀ k ∈ c.capabilities, k.capabilityId < c.nextId
  known : ∀ id, W id → id < c.nextId
  unpublished : ∀ k ∈ c.capabilities, W k.capabilityId → k.lifecycle ≠ .published

/-- The source does not publish a row of `W`. -/
def Defers (W : Uuid → Prop) (c : Config) (s : CapabilitySource) : Prop :=
  s.lifecycle = .published → ∀ k ∈ c.capabilities, s.describes k = true → ¬ W k.capabilityId

/-- The columns that tell the rows of the index apart. -/
def Capability.key (k : Capability) : Uuid × CapabilityType × Option Uuid :=
  (k.capabilityId, k.capabilityType, k.sourceId)

theorem Withheld.congr (h : Withheld W c) (hks : c'.capabilities = c.capabilities)
    (hn : c.nextId ≤ c'.nextId) : Withheld W c' where
  rows := fun k hk => (h.rows k (hks ▸ hk)).trans_le hn
  known := fun id hid => (h.known id hid).trans_le hn
  unpublished := fun k hk => h.unpublished k (hks ▸ hk)

theorem describes_of_key {k k' : Capability} (h : k'.key = k.key) : s.describes k' = s.describes k := by
  simp only [Capability.key, Prod.mk.injEq] at h
  unfold CapabilitySource.describes
  rw [h.2.1, h.2.2]

theorem queueEmbedding_capabilities (c : Config) (target : EmbeddingTarget) (input : Option String)
    (now : Time) : (queueEmbedding c target input now).capabilities = c.capabilities := by
  unfold queueEmbedding
  split
  · split
    · rfl
    · rfl
  · rfl

/-- A row is added. -/
def Adds (c c' : Config) : Prop :=
  ∃ row : Capability, c'.capabilities = c.capabilities ++ [row] ∧ row.capabilityId = c.nextId ∧
    c.nextId + 1 ≤ c'.nextId

/-- A row the source describes is written over. -/
def Overwrites (s : CapabilitySource) (c c' : Config) : Prop :=
  ∃ old ∈ c.capabilities, ∃ row : Capability,
    c'.capabilities = update (·.capabilityId = old.capabilityId) (fun _ => row) c.capabilities ∧
      s.describes old = true ∧ row.key = old.key ∧ row.lifecycle = s.lifecycle ∧ c.nextId ≤ c'.nextId

theorem upsertCapability_cases (pg : Postgres) (now : Time) (c : Config) (s : CapabilitySource) :
    Adds c (upsertCapability pg now c s) ∨ Overwrites s c (upsertCapability pg now c s) := by
  generalize hc : upsertCapability pg now c s = c'
  unfold upsertCapability at hc
  dsimp only at hc
  split at hc
  · subst hc
    exact .inl ⟨_, queueEmbedding_capabilities _ _ _ _, rfl, le_queueEmbedding_nextId _ _ _ (Nat.le_refl _)⟩
  · rename_i old hold
    have hmem := List.mem_of_find?_eq_some hold
    have hdescribes := List.find?_some hold
    split at hc
    · subst hc
      exact .inr ⟨old, hmem, _, rfl, hdescribes, rfl, rfl, Nat.le_refl _⟩
    · subst hc
      exact .inr ⟨old, hmem, _, queueEmbedding_capabilities _ _ _ _, hdescribes, rfl, rfl,
        le_queueEmbedding_nextId _ _ _ (Nat.le_refl _)⟩

theorem Withheld.upsert (h : Withheld W c) (hs : Defers W c s) :
    Withheld W (upsertCapability pg now c s) := by
  rcases upsertCapability_cases pg now c s with ⟨row, hks, hid, hn⟩ |
    ⟨old, hold, row, hks, hdescribes, hkey, hlifecycle, hn⟩
  · have hle : c.nextId ≤ (upsertCapability pg now c s).nextId := Nat.le_of_succ_le hn
    constructor
    · intro k hk
      rw [hks] at hk
      rcases List.mem_append.mp hk with hk | hk
      · exact (h.rows k hk).trans_le hle
      · obtain rfl := List.mem_singleton.mp hk
        exact hid ▸ hn
    · exact fun id hid => (h.known id hid).trans_le hle
    · intro k hk hW
      rw [hks] at hk
      rcases List.mem_append.mp hk with hk | hk
      · exact h.unpublished k hk hW
      · obtain rfl := List.mem_singleton.mp hk
        exact absurd hid (Nat.ne_of_lt (h.known _ hW))
  · have hid : row.capabilityId = old.capabilityId := congrArg (·.1) hkey
    constructor
    · intro k hk
      rw [hks] at hk
      obtain ⟨k₀, hk₀, rfl⟩ := mem_update.mp hk
      split
      · rw [hid]
        exact (h.rows old hold).trans_le hn
      · exact (h.rows k₀ hk₀).trans_le hn
    · exact fun id hid => (h.known id hid).trans_le hn
    · intro k hk hW
      rw [hks] at hk
      obtain ⟨k₀, hk₀, rfl⟩ := mem_update.mp hk
      split at hW
      · rename_i hp
        rw [if_pos hp, hlifecycle]
        intro hpublished
        exact hs hpublished old hold hdescribes (hid ▸ hW)
      · rename_i hp
        rw [if_neg hp]
        exact h.unpublished k₀ hk₀ hW

/-- The rows of the index after an upsert are those before it, up to what it writes in them, and
rows with new ids. -/
theorem upsertCapability_keys (pg : Postgres) (now : Time) (c : Config) (s : CapabilitySource) :
    Among Capability.key (fun b => c.nextId ≤ b.1) c.capabilities
      (upsertCapability pg now c s).capabilities := by
  rcases upsertCapability_cases pg now c s with ⟨row, hks, hid, _⟩ |
    ⟨old, hold, row, hks, _, hkey, _, _⟩
  · rw [hks]
    apply among_append
    exact Nat.le_of_eq hid.symm
  · rw [hks]
    intro k hk
    obtain ⟨k₀, hk₀, rfl⟩ := mem_update.mp hk
    split
    · exact .inl (hkey ▸ List.mem_map_of_mem hold)
    · exact .inl (List.mem_map_of_mem hk₀)

theorem Defers.upsert {s' : CapabilitySource} (hW : Withheld W c) (h : Defers W c s) :
    Defers W (upsertCapability pg now c s') s := by
  intro hpublished k hk hdescribes hk'
  rcases upsertCapability_keys pg now c s' k hk with hold | hnew
  · obtain ⟨k₀, hk₀, he⟩ := List.mem_map.mp hold
    have hid : k₀.capabilityId = k.capabilityId := congrArg (·.1) he
    exact h hpublished k₀ hk₀ (describes_of_key he ▸ hdescribes) (hid ▸ hk')
  · exact absurd (hW.known _ hk') (Nat.not_lt.mpr hnew)

theorem Withheld.upserts {sources : List CapabilitySource} (h : Withheld W c)
    (hs : ∀ s ∈ sources, Defers W c s) : Withheld W (sources.foldl (upsertCapability pg now) c) := by
  induction sources generalizing c with
  | nil => exact h
  | cons s sources ih =>
    have hhead := hs s List.mem_cons_self
    apply ih (h.upsert hhead)
    intro s' hs'
    exact (hs s' (List.mem_cons_of_mem _ hs')).upsert h

theorem Withheld.sync (h : Withheld W c) (hs : ∀ s ∈ capabilitySources c, Defers W c s) :
    Withheld W (syncCapabilityIndex pg now c) :=
  h.upserts hs

/-- A source that publishes did so before. -/
def PublishesAs (c c' : Config) : Prop :=
  ∀ s' ∈ capabilitySources c', s'.lifecycle = .published →
    ∃ s ∈ capabilitySources c, s.lifecycle = .published ∧ s.type = s'.type ∧ s.sourceId = s'.sourceId

theorem PublishesAs.defers (h : PublishesAs c c') (hks : c'.capabilities = c.capabilities)
    (hs : ∀ s ∈ capabilitySources c, Defers W c s) : ∀ s ∈ capabilitySources c', Defers W c' s := by
  intro s' hs' hpublished k hk hdescribes
  obtain ⟨s, hmem, hold, htype, hsource⟩ := h s' hs' hpublished
  have hsame : s.describes k = s'.describes k := by
    unfold CapabilitySource.describes
    rw [htype, hsource]
  exact hs s hmem hold k (hks ▸ hk) (hsame ▸ hdescribes)

theorem Withheld.resync (h : Withheld W c) (hs : ∀ s ∈ capabilitySources c, Defers W c s)
    (hp : PublishesAs c c') (hks : c'.capabilities = c.capabilities) (hn : c.nextId ≤ c'.nextId) :
    Withheld W (syncCapabilityIndex pg now c') :=
  (h.congr hks hn).sync (hp.defers hks hs)

theorem sourceLifecycle_published {isActive built : Bool} :
    sourceLifecycle isActive built = .published ↔ isActive = true ∧ built = true := by
  cases isActive <;> cases built <;> simp [sourceLifecycle]

theorem publishesAs_function {f : Function} {id : Uuid} (g : Function) (hs : List Function)
    (hf : c.function? id = some f) (hid : g.functionId = f.functionId) (hactive : g.isActive = f.isActive)
    (hbuilt : g.buildStatus = .built → f.buildStatus = .built) :
    PublishesAs c { c with
      functions := update (·.functionId = id) (fun _ => g) c.functions
      functionHistory := hs } := by
  intro s' hs' hpublished
  simp only [capabilitySources, List.mem_append, List.mem_map] at hs' ⊢
  rcases hs' with (⟨a, ha, rfl⟩ | ⟨r, hr, rfl⟩) | ⟨p, hp, rfl⟩
  · exact ⟨_, .inl (.inl ⟨a, ha, rfl⟩), hpublished, rfl, rfl⟩
  · obtain ⟨r₀, hr₀, rfl⟩ := mem_update.mp hr
    split at hpublished
    · rename_i hp
      rw [if_pos hp]
      have hg := sourceLifecycle_published.mp hpublished
      have hf' : (functionSource f).lifecycle = .published := by
        apply sourceLifecycle_published.mpr
        exact ⟨hactive ▸ hg.1, by simpa using hbuilt (by simpa using hg.2)⟩
      refine ⟨_, .inl (.inr ⟨f, List.mem_of_find?_eq_some hf, rfl⟩), hf', rfl, ?_⟩
      exact congrArg some hid.symm
    · rename_i hp
      rw [if_neg hp]
      exact ⟨_, .inl (.inr ⟨r₀, hr₀, rfl⟩), hpublished, rfl, rfl⟩
  · exact ⟨_, .inr ⟨p, hp, rfl⟩, hpublished, rfl, rfl⟩

theorem publishesAs_procedure {p : Procedure} {id : Uuid} (q : Procedure) (hs : List Procedure)
    (hp : c.procedure? id = some p) (hid : q.procedureId = p.procedureId)
    (hactive : q.isActive = p.isActive) (hbuilt : q.buildStatus = .built → p.buildStatus = .built) :
    PublishesAs c { c with
      procedures := update (·.procedureId = id) (fun _ => q) c.procedures
      procedureHistory := hs } := by
  intro s' hs' hpublished
  simp only [capabilitySources, List.mem_append, List.mem_map] at hs' ⊢
  rcases hs' with (⟨a, ha, rfl⟩ | ⟨f, hf, rfl⟩) | ⟨r, hr, rfl⟩
  · exact ⟨_, .inl (.inl ⟨a, ha, rfl⟩), hpublished, rfl, rfl⟩
  · exact ⟨_, .inl (.inr ⟨f, hf, rfl⟩), hpublished, rfl, rfl⟩
  · obtain ⟨r₀, hr₀, rfl⟩ := mem_update.mp hr
    split at hpublished
    · rename_i hr
      rw [if_pos hr]
      have hq := sourceLifecycle_published.mp hpublished
      have hp' : (procedureSource p).lifecycle = .published := by
        apply sourceLifecycle_published.mpr
        exact ⟨hactive ▸ hq.1, by simpa using hbuilt (by simpa using hq.2)⟩
      refine ⟨_, .inr ⟨p, List.mem_of_find?_eq_some hp, rfl⟩, hp', rfl, ?_⟩
      exact congrArg some hid.symm
    · rename_i hr
      rw [if_neg hr]
      exact ⟨_, .inr ⟨r₀, hr₀, rfl⟩, hpublished, rfl, rfl⟩

theorem withheld_fnUpdateFunction (h : Withheld W c) (hs : ∀ s ∈ capabilitySources c, Defers W c s)
    (id : Uuid) (description body : Option String) (paramSchema : Option Json) :
    Returns (fun r => Withheld W r.1) (fnUpdateFunction pg now c id description body paramSchema) := by
  unfold fnUpdateFunction
  split
  · exact returns_error _
  · rename_i f hf
    have hbuilt : (f.edited now description body paramSchema).buildStatus = .built →
        f.buildStatus = .built := by
      intro hb
      change (if body.isSome then BuildStatus.pending else f.buildStatus) = .built at hb
      split at hb
      · cases hb
      · exact hb
    have hsync : ∀ hist, Withheld W (syncCapabilityIndex pg now { c with
        functions := update (·.functionId = id) (fun _ => f.edited now description body paramSchema) c.functions
        functionHistory := hist }) :=
      fun _ => h.resync hs (publishesAs_function _ _ hf rfl rfl hbuilt) rfl (Nat.le_refl _)
    refine returns_seq fun _ => returns_guard fun _ => returns_pure ?_
    exact hsync _

theorem withheld_fnSetProcedure (h : Withheld W c) (hs : ∀ s ∈ capabilitySources c, Defers W c s)
    (id : Uuid) (content body : Option String) :
    Returns (fun r => Withheld W r.1) (fnSetProcedure pg now c id content none body) := by
  unfold fnSetProcedure
  split
  · exact returns_error _
  · rename_i p hp
    have hid : p.procedureId = id := by simpa using List.find?_some hp
    subst hid
    have hbuilt : (p.edited now content none body).buildStatus = .built → p.buildStatus = .built := by
      intro hb
      unfold Procedure.edited at hb
      dsimp only at hb
      split at hb
      · cases hb
      · exact hb
    have hsync : ∀ hist, Withheld W (syncCapabilityIndex pg now { c with
        procedures := update (·.procedureId = p.procedureId) (fun _ => p.edited now content none body)
          c.procedures
        procedureHistory := hist }) :=
      fun _ => h.resync hs (publishesAs_procedure _ _ hp rfl rfl hbuilt) rfl (Nat.le_refl _)
    refine returns_guard fun _ => returns_seq fun _ => returns_pure ?_
    exact hsync _

theorem withheld_rollbackSource (h : Withheld W c) {k : Capability} {metadata : Json}
    (hs : metadata.has "generation" = true → ∀ s ∈ capabilitySources c, Defers W c s) :
    Returns (Withheld W) (Library.rollbackSource pg now c k metadata) := by
  unfold Library.rollbackSource
  split
  · rename_i hgeneration
    have hs := hs hgeneration
    split
    · refine returns_seq fun g => ?_
      split
      · rename_i source n _
        have hset : Returns (fun r => Withheld W r.1) (fnRollbackProcedure pg now c source n) := by
          unfold fnRollbackProcedure
          split
          · exact returns_error _
          · exact withheld_fnSetProcedure h hs _ _ _
        exact returns_bind hset fun _ hr => returns_pure hr
      · exact returns_error _
    · refine returns_seq fun g => ?_
      split
      · rename_i source n _
        have hset : Returns (fun r => Withheld W r.1) (fnRollbackFunction pg now c source n) := by
          unfold fnRollbackFunction
          split
          · exact returns_error _
          · exact withheld_fnUpdateFunction h hs _ _ _ _
        exact returns_bind hset fun _ hr => returns_pure hr
      · exact returns_error _
    · exact returns_pure h
  · exact returns_pure h

theorem Withheld.restore (h : Withheld W c) {id : Uuid} (hid : ¬ W id) (s : CapabilitySnapshot) :
    Withheld W { c with
      capabilities := update (·.capabilityId = id) (Library.restore · s) c.capabilities } where
  rows := by
    intro k hk
    obtain ⟨k₀, hk₀, rfl⟩ := mem_update.mp hk
    split
    · exact h.rows k₀ hk₀
    · exact h.rows k₀ hk₀
  known := h.known
  unpublished := by
    intro k hk hW
    obtain ⟨k₀, hk₀, rfl⟩ := mem_update.mp hk
    split at hW
    · rename_i hp
      exact absurd (of_decide_eq_true hp ▸ hW) hid
    · rename_i hp
      rw [if_neg hp]
      exact h.unpublished k₀ hk₀ hW

theorem withheld_rollbackCapability {L : Library} (h : Withheld W L.cfg) {id : Uuid} {version : Int}
    (hs : ∀ v, L.version? id version = some v → ¬ W id ∧
      (v.snapshot.metadata.has "generation" = true → ∀ s ∈ capabilitySources L.cfg, Defers W L.cfg s)) :
    Returns (fun r => Withheld W r.1.cfg) (L.rollbackCapability pg now id version) := by
  unfold Library.rollbackCapability
  split
  · exact returns_error _
  · rename_i v hv
    obtain ⟨hid, hdefers⟩ := hs v hv
    have hfinish : ∀ c, Withheld W c → Withheld W (queueCapabilityEmbedding { c with
        capabilities := update (·.capabilityId = id) (Library.restore · v.snapshot) c.capabilities } id now) :=
      fun c hc => (hc.restore hid v.snapshot).congr (queueEmbedding_capabilities _ _ _ _)
        (le_queueEmbedding_nextId _ _ _ (Nat.le_refl _))
    split
    · refine returns_bind (withheld_rollbackSource h hdefers) fun c hc => ?_
      exact returns_pure (hfinish c hc)
    · exact returns_pure (hfinish _ h)

end Writes

section Transitions

variable {L : Library} {id : Uuid} {lifecycle : Option String} {testResult : Option Json}
  {note : Option String}

theorem Lifecycle.text_of_ofText? {text : String} {l : Lifecycle} (h : Lifecycle.ofText? text = some l) :
    l.text = text := by
  simpa using List.find?_some h

/-- What a transition checks and leaves behind. -/
structure Transits (L : Library) (id : Uuid) (lifecycle : Option String) (row : CapabilityVersion)
    (target : Lifecycle) : Prop where
  named : lifecycle = some target.text
  found : ∃ k, L.capability? id = some k ∧ row.lifecycle = k.lifecycle ∧
    (target = .published → k.lifecycle = .reviewPending ∧
      ∃ e ∈ L.evaluations, e.capabilityId = k.capabilityId ∧ e.passed = true ∧
        e.contentHash = k.contentHash)
  row : row.capabilityId = id ∧ row.version = L.nextVersion id

theorem publication_passes {k : Capability} :
    Returns (fun _ => ∃ e ∈ L.evaluations, e.capabilityId = k.capabilityId ∧ e.passed = true ∧
      e.contentHash = k.contentHash) (L.publication k testResult) := by
  unfold Library.publication
  refine returns_seq fun evaluationId => ?_
  split
  · exact returns_error _
  · rename_i e he
    have hmem := List.mem_of_find?_eq_some he
    have hpassing := List.find?_some he
    simp only [decide_eq_true_eq] at hpassing
    exact returns_pure ⟨e, hmem, hpassing.2.1, hpassing.2.2.1, hpassing.2.2.2.2⟩

theorem transitionRow_transits : Returns (fun r => Transits L id lifecycle r.1 r.2)
    (L.transitionRow id lifecycle testResult note) := by
  unfold Library.transitionRow
  refine returns_bind (P := fun target => ∀ l, target = some l → lifecycle = some l.text) ?_
    fun target htarget => ?_
  · unfold Library.lifecycleArgument
    cases lifecycle with
    | none => exact returns_ok nofun
    | some s =>
      dsimp only
      split
      · exact returns_error _
      · rename_i l hl
        apply returns_ok
        rintro _ ⟨⟩
        exact congrArg some (Lifecycle.text_of_ofText? hl).symm
  · split
    · exact returns_error _
    · rename_i k hk
      refine returns_seq fun _ => ?_
      refine returns_bind (P := fun _ => target = some .published → k.lifecycle = .reviewPending) ?_
        fun _ hreview => ?_
      · intro u hu hpublished
        by_contra hne
        exact raiseIf_eq_ok.mp hu ⟨hpublished, hne⟩
      · cases target with
        | none =>
          rw [if_neg nofun]
          exact returns_seq fun _ => returns_error _
        | some target =>
          by_cases ht : target = .published
          · subst ht
            rw [if_pos rfl]
            refine returns_bind publication_passes fun result hpasses => returns_pure ?_
            exact ⟨htarget _ rfl, ⟨k, hk, rfl, fun _ => ⟨hreview rfl, hpasses⟩⟩, rfl, rfl⟩
          · rw [if_neg (by simpa using ht)]
            apply returns_pure
            exact ⟨htarget target rfl, ⟨k, hk, rfl, fun h => absurd h ht⟩, rfl, rfl⟩

theorem Withheld.enter {W W' : Uuid → Prop} {c : Config} {target : Lifecycle} (h : Withheld W c)
    (hid : id < c.nextId) (hsame : W' id → target ≠ .published) (hother : ∀ i, i ≠ id → W' i → W i) :
    Withheld W' (Library.setLifecycle c id target) where
  rows := by
    intro k hk
    obtain ⟨k₀, hk₀, rfl⟩ := mem_update.mp hk
    split
    · exact h.rows k₀ hk₀
    · exact h.rows k₀ hk₀
  known := by
    intro i hi
    by_cases he : i = id
    · exact he ▸ hid
    · exact h.known i (hother i he hi)
  unpublished := by
    intro k hk hW
    obtain ⟨k₀, hk₀, rfl⟩ := mem_update.mp hk
    split at hW
    · rename_i hp
      rw [if_pos hp]
      exact hsame (of_decide_eq_true hp ▸ hW)
    · rename_i hp
      rw [if_neg hp]
      exact h.unpublished k₀ hk₀ (hother _ (by simpa using hp) hW)

end Transitions

namespace Course

variable {pg : Postgres} {x : Course} {e : LibraryEvent}

def Held (x : Course) : Prop :=
  Withheld (fun id => x.withheld id = true) x.library.cfg

theorem defers_of_not_overridden {c : Config} {s : CapabilitySource} (h : (!x.overridden c s) = true) :
    Defers (fun id => x.withheld id = true) c s := by
  intro hpublished k hk hdescribes hheld
  have hany : (c.capabilities.any fun k => s.describes k && x.withheld k.capabilityId) = true :=
    List.any_eq_true.mpr ⟨k, hk, by rw [hdescribes, hheld]; rfl⟩
  have hover : x.overridden c s = true := decide_eq_true ⟨hpublished, hany⟩
  rw [hover] at h
  cases h

theorem defers_of_settled {c : Config} (h : x.settled c = true) :
    ∀ s ∈ capabilitySources c, Defers (fun id => x.withheld id = true) c s :=
  fun s hs => defers_of_not_overridden (List.all_eq_true.mp h s hs)

theorem withheld_cons {id i : Uuid} {origin target : Lifecycle} {testResult : Option Json}
    {L : Library} : withheld ⟨L, ⟨id, origin, target, testResult⟩ :: x.past⟩ i =
      if i = id then target != .published else x.withheld i := by
  unfold withheld
  rw [List.find?_cons]
  by_cases h : i = id
  · subst h
    simp
  · simp [h, Ne.symm h]

theorem edited_capabilities (c : Config) (change : Config → Config) :
    (Library.edited c change).capabilities = c.capabilities := by
  unfold Library.edited
  split
  · rename_i h
    exact h.1
  · rfl

theorem le_edited_nextId (c : Config) (change : Config → Config) :
    c.nextId ≤ (Library.edited c change).nextId := by
  unfold Library.edited
  split
  · rename_i h
    exact h.2
  · exact Nat.le_refl _

theorem Held.edited {change : Config → Config} (h : x.Held) :
    Withheld (fun id => x.withheld id = true) (Library.edited x.library.cfg change) :=
  h.congr (edited_capabilities _ _) (le_edited_nextId _ _)

theorem afterReply_of_returns {P : Library → Prop} {L : Library} {r : Except String (Library × Json)}
    (hr : Returns (fun v => P v.1) r) (h : P L) : P (L.afterReply r) := by
  cases r with
  | error e => exact h
  | ok v => exact hr v rfl

theorem held_transition {id : Uuid} {lifecycle : Option String} {testResult : Option Json}
    {note : Option String} (now : Time) (h : x.Held) :
    (x.step pg ⟨now, .transition id lifecycle testResult note⟩).Held := by
  unfold step libraryStep Library.transitions Library.transitionCapability
  dsimp only
  cases hrow : x.library.transitionRow id lifecycle testResult note with
  | error e => exact h
  | ok r =>
    obtain ⟨row, target⟩ := r
    obtain ⟨k, hk, _⟩ := (transitionRow_transits _ hrow).found
    have hid : k.capabilityId = id := by simpa using List.find?_some hk
    have hlt : id < x.library.cfg.nextId := hid ▸ h.rows k (List.mem_of_find?_eq_some hk)
    apply h.enter hlt
    · intro hheld
      rw [List.singleton_append, withheld_cons, if_pos rfl] at hheld
      simpa using hheld
    · intro i hi hheld
      rw [List.singleton_append, withheld_cons, if_neg hi] at hheld
      exact hheld

theorem held_step (h : x.Held) (hd : x.deferent e = true) : (x.step pg e).Held := by
  obtain ⟨now, op⟩ := e
  cases op with
  | upsert source => exact h.upsert (defers_of_not_overridden hd)
  | sync => exact h.sync (defers_of_settled hd)
  | evaluate id =>
    apply afterReply_of_returns (P := fun L => Withheld (fun id => x.withheld id = true) L.cfg) _ h
    exact returns_seq fun _ => returns_pure (h.congr rfl (Nat.le_succ _))
  | transition id lifecycle testResult note => exact held_transition now h
  | rollback id version =>
    apply afterReply_of_returns (P := fun L => Withheld (fun id => x.withheld id = true) L.cfg) _ h
    apply withheld_rollbackCapability h
    intro v hv
    simp only [deferent, hv, Option.all_some, Bool.and_eq_true, Bool.or_eq_true, Bool.not_eq_true'] at hd
    refine ⟨by simp [hd.1], fun hgeneration => ?_⟩
    rcases hd.2 with hno | hsettled
    · rw [hno] at hgeneration
      cases hgeneration
    · exact defers_of_settled hsettled
  | sourceChange change => exact h.edited.sync (defers_of_settled hd)
  | elsewhere change => exact h.edited
  | searched change => exact h

/-- Nothing but the gate publishes a withheld capability. -/
theorem gated_step (h : x.Held) (hd : x.deferent e = true) : x.Gated pg e := by
  intro k hk hheld hpublished
  have hheld' : (x.step pg e).withheld k.capabilityId = false := by
    by_contra hne
    exact (held_step h hd).unpublished k hk (by simpa using hne) hpublished
  obtain ⟨now, op⟩ := e
  cases op with
  | transition id lifecycle testResult note =>
    unfold step Library.transitions at hheld'
    dsimp only at hheld'
    cases hrow : x.library.transitionRow id lifecycle testResult note with
    | error e =>
      rw [hrow] at hheld'
      exact absurd (hheld.symm.trans hheld') nofun
    | ok r =>
      obtain ⟨row, target⟩ := r
      rw [hrow, List.singleton_append, withheld_cons] at hheld'
      split at hheld'
      · rename_i hid
        obtain ⟨hnamed, ⟨k₀, hk₀, _, hgate⟩, _⟩ := transitionRow_transits _ hrow
        have htarget : target = .published := by simpa using hheld'
        subst htarget
        obtain ⟨hreview, e, he, heid, hpassed, hhash⟩ := hgate rfl
        have hk₀id : k₀.capabilityId = id := by simpa using List.find?_some hk₀
        rw [hid]
        refine ⟨testResult, note, k₀, e, ?_, hk₀, hreview, he, heid.trans hk₀id, hpassed, hhash⟩
        rw [hnamed]
        rfl
      · exact absurd (hheld.symm.trans hheld') nofun
  | _ => exact absurd (hheld.symm.trans hheld') nofun

theorem held_start (c : Config) : (start c).Held where
  rows := nofun
  known := nofun
  unpublished := nofun

theorem run_gated (pg : Postgres) (c : Config) (es : List LibraryEvent)
    (h : Along (step pg) (fun x e => x.deferent e = true) (start c) es) :
    Along (step pg) (Gated pg) (start c) es := by
  have hrun : ∀ (es : List LibraryEvent) (x : Course), x.Held →
      Along (step pg) (fun x e => x.deferent e = true) x es → Along (step pg) (Gated pg) x es := by
    intro es
    induction es with
    | nil => exact fun _ _ _ => trivial
    | cons e es ih =>
      rintro x hx ⟨he, hes⟩
      exact ⟨gated_step hx he, ih _ (held_step hx he) hes⟩
  exact hrun es _ (held_start c) h

end Course

/-- An agent, whose row in the index is the second id. -/
def scoutConfig : Config where
  agents := [{ agentId := 1, name := "scout" }]
  policies := [{ agentId := 1, systemPrompt := "look around" }]
  nextId := 2

def moved (lifecycle : String) (testResult : Option Json) : LibraryOp :=
  .transition 2 (some lifecycle) testResult none

/-- Taken out of use, reviewed and evaluated under the third id. -/
def reviewRun : List LibraryEvent :=
  [⟨1, .sync⟩, ⟨2, moved "disabled" none⟩, ⟨3, moved "review_pending" none⟩, ⟨4, .evaluate 2⟩,
    ⟨5, moved "published" (some (.object [("evaluation_id", .str (uuidText 3))]))⟩, ⟨6, .sync⟩]

theorem review_gated :
    Along (Course.step bareServer) (Course.Gated bareServer) (Course.start scoutConfig) reviewRun :=
  Course.run_gated bareServer scoutConfig reviewRun (by decide +kernel)

theorem sync_republishes :
    ¬ ∀ (pg : Postgres) (c : Config) (es : List LibraryEvent),
      Along (Course.step pg) (Course.Gated pg) (Course.start c) es := by
  intro h
  have halong := h bareServer scoutConfig [⟨1, .sync⟩, ⟨2, moved "disabled" none⟩, ⟨3, .sync⟩]
  obtain ⟨-, -, hlast, -⟩ := halong
  generalize hx : Course.step bareServer (Course.step bareServer (Course.start scoutConfig) ⟨1, .sync⟩)
    ⟨2, moved "disabled" none⟩ = x at hlast
  have hrow : ∃ k ∈ (x.step bareServer ⟨3, .sync⟩).library.cfg.capabilities,
      x.withheld k.capabilityId = true ∧ k.lifecycle = .published := by
    subst hx
    decide +kernel
  obtain ⟨k, hk, hheld, hpublished⟩ := hrow
  obtain ⟨testResult, note, _, _, hop, _⟩ := hlast k hk hheld hpublished
  cases hop

end Allgres
