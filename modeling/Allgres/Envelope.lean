import Allgres.Decisions
import Allgres.Machine

/-! What a `propose_change` can alter, applied at once or approved later: the prompt of its
target, and the model, temperature and tokens of its `llm_config`. -/

namespace Allgres

open Raise Rows Runs

/-- The keys of an `llm_config` that a proposal may set. -/
def tunable : List String :=
  ["model", "temperature", "max_tokens"]

def Policy.isSanitized (p : Policy) : Bool :=
  sanitizeLlmConfig p.llmConfig = p.llmConfig

/-- A version of a policy that a proposal may make of another. -/
structure Envelope (p q : Policy) : Prop where
  rest : { q with
    systemPrompt := p.systemPrompt
    llmConfig := p.llmConfig
    generation := p.generation } = p
  config : ∀ key, key ∉ tunable → q.llmConfig.get key = p.llmConfig.get key
  version : q.generation = p.generation ∨ q.generation = p.generation + 1

/-- Only the row of the target is changed, and that within the envelope. Of the tables beside
the policies only those named here are written. -/
structure Inside (target : Uuid) (c c' : Config) : Prop where
  policies : List.Forall₂ (fun p q => q = p ∨ (p.agentId = target ∧ Envelope p q)) c.policies c'.policies
  rest : ∃ ps hs rs ks es n fs xs, c' =
    { c with
      policies := ps
      policyHistory := hs
      changeProposals := rs
      capabilities := ks
      embeddingCalls := es
      nextId := n
      functions := fs
      experiments := xs }

section Setter

variable {c c' : Config} {p : Policy} {v cfg : Json}

theorem get_sanitize (v : Json) (key : String) : (sanitizeLlmConfig v).get key =
    ([("model", (nullIfEmpty (v.text "model")).map .str), ("temperature", v.get "temperature"),
      ("max_tokens", v.get "max_tokens"),
      ("provider", (nullIfEmpty (v.text "provider")).map .str)].lookup key).bind Json.nonNull :=
  Json.get_stripNulls (by simp) key

theorem nonNull_str (o : Option String) : Json.nonNull (o.map .str) = o.map .str := by
  cases o <;> rfl

theorem get_sanitize_of_not_mem {key : String} (h : key ∉ tunable) (hp : key ≠ "provider") (v : Json) :
    (sanitizeLlmConfig v).get key = none := by
  simp only [tunable, List.mem_cons, List.not_mem_nil, or_false, not_or] at h
  have hmodel : (key == "model") = false := by simpa using h.1
  have htemp : (key == "temperature") = false := by simpa using h.2.1
  have htokens : (key == "max_tokens") = false := by simpa using h.2.2
  have hprov : (key == "provider") = false := by simpa using hp
  simp [get_sanitize, List.lookup_cons, List.lookup_nil, hmodel, htemp, htokens, hprov]

theorem get_sanitize_provider (v : Json) :
    (sanitizeLlmConfig v).get "provider" = (nullIfEmpty (v.text "provider")).map .str := by
  rw [get_sanitize]
  exact nonNull_str _

theorem isObject_sanitize (v : Json) : (sanitizeLlmConfig v).isObject = true :=
  rfl

/-- A setting of a policy that has been sanitized, by keys that may be tuned. -/
theorem get_sanitize_merge (hp : p.isSanitized = true) (hobj : cfg.isObject = true)
    (hkeys : ∀ key ∈ cfg.keys, key ∈ tunable)
    {key : String} (hkey : key ∉ tunable) :
    (sanitizeLlmConfig (p.llmConfig.merge cfg)).get key = p.llmConfig.get key := by
  have hsan : sanitizeLlmConfig p.llmConfig = p.llmConfig := by simpa [Policy.isSanitized] using hp
  have hmerge : (p.llmConfig.merge cfg).get key = p.llmConfig.get key :=
    Json.get_merge_of_not_mem (hsan ▸ isObject_sanitize _) hobj fun hmem => hkey (hkeys key hmem)
  by_cases hprov : key = "provider"
  · subst hprov
    have htext : (p.llmConfig.merge cfg).text "provider" = p.llmConfig.text "provider" := by
      unfold Json.text
      rw [hmerge]
    rw [get_sanitize_provider, htext, ← get_sanitize_provider, hsan]
  · rw [get_sanitize_of_not_mem hkey hprov, ← hsan, get_sanitize_of_not_mem hkey hprov]

theorem nullIfEmpty_str (o : Option String) :
    nullIfEmpty (((nullIfEmpty o).map Json.str).bind Json.asText) = nullIfEmpty o := by
  cases o with
  | none => rfl
  | some t =>
    by_cases ht : t = ""
    · simp [nullIfEmpty, ht]
    · simp [nullIfEmpty, ht, Json.asText]

theorem sanitize_sanitize (v : Json) : sanitizeLlmConfig (sanitizeLlmConfig v) = sanitizeLlmConfig v := by
  have hmodel : (sanitizeLlmConfig v).text "model" =
      ((nullIfEmpty (v.text "model")).map Json.str).bind Json.asText := by
    unfold Json.text
    rw [get_sanitize]
    exact congrArg (·.bind Json.asText) (nonNull_str _)
  have hprov : (sanitizeLlmConfig v).text "provider" =
      ((nullIfEmpty (v.text "provider")).map Json.str).bind Json.asText := by
    unfold Json.text
    rw [get_sanitize_provider]
    rfl
  have htemp : (sanitizeLlmConfig v).get "temperature" = Json.nonNull (v.get "temperature") :=
    get_sanitize v "temperature"
  have htokens : (sanitizeLlmConfig v).get "max_tokens" = Json.nonNull (v.get "max_tokens") :=
    get_sanitize v "max_tokens"
  rw [sanitizeLlmConfig, hmodel, hprov, nullIfEmpty_str, nullIfEmpty_str, htemp, htokens,
    sanitizeLlmConfig, Json.stripNulls_eq, Json.stripNulls_eq]
  simp only [List.filterMap_cons, Json.nonNull_nonNull]

/-- The changes of a proposal as far as they are applied. -/
def Proposable (changes : Json) : Prop :=
  ∀ cfg, changes.get "llm_config" = some cfg → cfg.isObject = true ∧ ∀ key ∈ cfg.keys, key ∈ tunable

/-- The arguments that `propose_change` and the approval of a proposal give to the setter. -/
def proposedChange (changes : Json) : PolicyChange :=
  { prompt := changes.text "system_prompt"
    llmConfig := changes.get "llm_config" }

/-- A proposed change sets no bound, so it is never refused. -/
theorem violated_proposed (v : Json) (p : Policy) : (proposedChange v).violated p = none :=
  PolicyChange.violated_of_unbounded rfl rfl rfl rfl

theorem apply_proposed (v : Json) (p : Policy) :
    (proposedChange v).apply p = (proposedChange v).row p (violated_proposed v p) :=
  PolicyChange.apply_of_ok (PolicyChange.newRow_of_free _)

theorem envelope_apply (hp : p.isSanitized = true) (hv : Proposable v) {n : Nat}
    (hn : n = p.generation ∨ n = p.generation + 1) :
    Envelope p { (proposedChange v).apply p with generation := n } := by
  rw [apply_proposed]
  refine ⟨rfl, fun key hkey => ?_, hn⟩
  cases hcfg : v.get "llm_config" with
  | none => simp [PolicyChange.row, proposedChange, hcfg]
  | some cfg =>
    simp only [PolicyChange.row, proposedChange, hcfg]
    obtain ⟨hobj, hkeys⟩ := hv cfg hcfg
    exact get_sanitize_merge hp hobj hkeys hkey

theorem isSanitized_apply (hp : p.isSanitized = true) (change : PolicyChange) :
    (change.apply p).isSanitized = true := by
  rcases PolicyChange.apply_cases change p with h | ⟨_, -, h⟩
  · rw [h]
    exact hp
  · rw [h]
    cases hcfg : change.llmConfig with
    | none => simpa [Policy.isSanitized, PolicyChange.row, hcfg] using hp
    | some cfg => simp [Policy.isSanitized, PolicyChange.row, hcfg, sanitize_sanitize]

/-- What every policy and every queued proposal keeps to. -/
structure Proper (c : Config) : Prop where
  unique : (c.policies.map (·.agentId)).Nodup
  sanitized : ∀ p ∈ c.policies, p.isSanitized = true
  proposable : ∀ r ∈ c.changeProposals, r.kind = .policyChange → Proposable r.proposedChanges

theorem Proper.of_tables (h : Proper c) (hp : c'.policies = c.policies)
    (hr : c'.changeProposals = c.changeProposals) : Proper c' where
  unique := hp ▸ h.unique
  sanitized p hmem := h.sanitized p (hp ▸ hmem)
  proposable r hmem := h.proposable r (hr ▸ hmem)

theorem Indexed.tables (h : Indexed c c') :
    c'.policies = c.policies ∧ c'.changeProposals = c.changeProposals := by
  obtain ⟨ks, es, n, rfl⟩ := h.eq
  exact ⟨rfl, rfl⟩

theorem Proper.indexed (h : Proper c) (hi : Indexed c c') : Proper c' :=
  h.of_tables hi.tables.1 hi.tables.2

/-- The tables `fn_set_policy` leaves behind. -/
theorem fnSetPolicy_eq {pg : Postgres} {now : Time} {agentId : Uuid} {change : PolicyChange} {answer : Json}
    (h : fnSetPolicy pg now c agentId change = .ok (c', answer)) :
    ∃ p n hs d, c.policy? agentId = some p ∧ (n = p.generation ∨ n = p.generation + 1) ∧
      d = { c with
        policies := update (·.agentId = agentId) (fun _ => { change.apply p with generation := n }) c.policies
        policyHistory := hs } ∧ Indexed d c' := by
  unfold fnSetPolicy at h
  cases hp : c.policy? agentId with
  | none => simp [hp] at h
  | some p =>
    rw [hp] at h
    obtain ⟨q, hq, h⟩ := bind_eq_ok.mp h
    obtain rfl := PolicyChange.apply_of_ok hq
    rw [Except.ok.injEq, Prod.mk.injEq] at h
    refine ⟨p, _, _, _, rfl, ?_, rfl, h.1 ▸ syncCapabilityIndex_indexed pg now _⟩
    split_ifs
    · exact .inr rfl
    · exact .inl rfl

theorem Proper.fnSetPolicy (h : Proper c) {pg : Postgres} {now : Time} {agentId : Uuid}
    {change : PolicyChange} {answer : Json} (hok : fnSetPolicy pg now c agentId change = .ok (c', answer)) :
    Proper c' := by
  obtain ⟨p, n, hs, d, hp, -, hd, hi⟩ := fnSetPolicy_eq hok
  have hid : p.agentId = agentId := by simpa using List.find?_some hp
  have hrows : d.policies =
      update (·.agentId = agentId) (fun _ => { change.apply p with generation := n }) c.policies := by
    rw [hd]
  have hproposals : d.changeProposals = c.changeProposals := by rw [hd]
  have hproper : Proper d := by
    refine ⟨?_, fun q hq => ?_, hproposals ▸ h.proposable⟩
    · have hids : d.policies.map (·.agentId) = c.policies.map (·.agentId) := by
        rw [hrows, update, List.map_map]
        apply List.map_congr_left
        intro r _
        by_cases hr : r.agentId = agentId
        · simp [hr, hid]
        · simp [hr]
      exact hids ▸ h.unique
    · rw [hrows] at hq
      obtain ⟨r, hr, rfl⟩ := mem_update.mp hq
      split_ifs
      · exact isSanitized_apply (h.sanitized p (List.mem_of_find?_eq_some hp)) change
      · exact h.sanitized r hr
  exact hproper.indexed hi

theorem inside_of_same (hp : c'.policies = c.policies) (target : Uuid)
    (hrest : ∃ ps hs rs ks es n fs xs, c' =
      { c with
        policies := ps
        policyHistory := hs
        changeProposals := rs
        capabilities := ks
        embeddingCalls := es
        nextId := n
        functions := fs
        experiments := xs }) : Inside target c c' := by
  refine ⟨?_, hrest⟩
  rw [hp]
  exact List.forall₂_same.mpr fun _ _ => .inl rfl

theorem Inside.refl (target : Uuid) (c : Config) : Inside target c c :=
  inside_of_same rfl target ⟨_, _, _, _, _, _, _, _, rfl⟩

/-- A proposal is applied within the envelope. -/
theorem inside_fnSetPolicy (h : Proper c) {pg : Postgres} {now : Time} {agentId : Uuid} {answer : Json}
    (hv : Proposable v) (hok : Allgres.fnSetPolicy pg now c agentId (proposedChange v) = .ok (c', answer)) :
    Inside agentId c c' := by
  obtain ⟨p, n, hs, d, hp, hn, rfl, hi⟩ := fnSetPolicy_eq hok
  have hid : p.agentId = agentId := by simpa using List.find?_some hp
  have hmem : p ∈ c.policies := List.mem_of_find?_eq_some hp
  refine ⟨?_, ?_⟩
  · rw [hi.tables.1]
    refine List.forall₂_map_right_iff.mpr (List.forall₂_same.mpr fun r hr => ?_)
    by_cases hr' : r.agentId = agentId
    · have heq : r = p := eq_of_key Policy.agentId h.unique hr hmem (hr'.trans hid.symm)
      subst heq
      rw [if_pos (by simpa using hr')]
      exact .inr ⟨hr', envelope_apply (h.sanitized r hr) hv hn⟩
    · rw [if_neg (by simpa using hr')]
      exact .inl rfl
  · obtain ⟨ks, es, m, rfl⟩ := hi.eq
    exact ⟨_, _, _, _, _, _, _, _, rfl⟩

end Setter

section Writers

variable {c c' : Config} (pg : Postgres) (now : Time)

/-- The tables of policies and proposals are left alone. -/
def SameTables (c c' : Config) : Prop :=
  c'.policies = c.policies ∧ c'.changeProposals = c.changeProposals

theorem Proper.same (h : Proper c) (hs : SameTables c c') : Proper c' :=
  h.of_tables hs.1 hs.2

theorem sameTables_sync (d : Config) (h : SameTables c d) :
    SameTables c (syncCapabilityIndex pg now d) := by
  obtain ⟨hp, hr⟩ := (syncCapabilityIndex_indexed pg now d).tables
  exact ⟨hp.trans h.1, hr.trans h.2⟩

theorem fnCreateFunction_same (c : Config) (name description : Option String) (handler : Handler)
    (args : Json) (body : Option String) (schema : Option Json) (createdBy connection : Option Uuid) :
    Returns (fun r => SameTables c r.1)
      (fnCreateFunction pg now c name description handler args body schema createdBy connection) := by
  unfold fnCreateFunction
  refine returns_seq fun f => returns_seq fun _ => returns_pure ?_
  exact sameTables_sync pg now _ ⟨rfl, rfl⟩

theorem fnUpdateFunction_same (c : Config) (id : Uuid) (description body : Option String)
    (schema : Option Json) :
    Returns (fun r => SameTables c r.1) (fnUpdateFunction pg now c id description body schema) := by
  unfold fnUpdateFunction
  split
  · exact returns_error _
  · refine returns_seq fun _ => returns_guard fun _ => returns_pure ?_
    exact sameTables_sync pg now _ ⟨rfl, rfl⟩

theorem applyFix_same (c : Config) (kind : FixKind) (target : Uuid) (detail : Json) :
    Returns (fun r => SameTables c r.1) (applyFix pg now c kind target detail) := by
  cases kind with
  | revokePermission => exact returns_ok ⟨rfl, rfl⟩
  | deactivateAgent =>
    refine returns_seq fun _ => returns_pure ?_
    exact sameTables_sync pg now _ ⟨rfl, rfl⟩

theorem queueEmbedding_same (c : Config) (target : EmbeddingTarget) (input : Option String) :
    SameTables c (queueEmbedding c target input now) :=
  (queueEmbedding_indexed c target input now).tables

theorem writeMemory_same (c : Config) (agentId : Uuid)
    (content memoryType importance subject days : Option String) (sessionId taskId : Option Uuid) :
    Returns (fun r => SameTables c r.1) (writeMemory pg now c agentId content memoryType importance subject
      days sessionId taskId) := by
  unfold writeMemory
  refine returns_seq fun _ => returns_seq fun _ => returns_pure ?_
  exact queueEmbedding_same now _ _ _

/-- What the experiments of a function write. -/
def Overridden (c c' : Config) : Prop :=
  ∃ fs xs n, c' = { c with functions := fs, experiments := xs, nextId := n }

theorem Overridden.same (h : Overridden c c') : SameTables c c' := by
  obtain ⟨fs, xs, n, rfl⟩ := h
  exact ⟨rfl, rfl⟩

theorem Overridden.inside (h : Overridden c c') (target : Uuid) : Inside target c c' := by
  refine inside_of_same h.same.1 target ?_
  obtain ⟨fs, xs, n, rfl⟩ := h
  exact ⟨_, _, _, _, _, _, _, _, rfl⟩

theorem applyStart_overrides (c : Config) (calls : List Call) (id : Uuid) (provider model : String)
    (percent : Int) (samples : Option Int) (proposer : Uuid) (reason : Option String) :
    Returns (fun r => Overridden c r.1)
      (applyFunctionExperimentStart c calls id provider model percent samples proposer reason) := by
  unfold applyFunctionExperimentStart
  exact returns_seq fun _ => returns_pure ⟨_, _, _, rfl⟩

theorem applyPromote_overrides (c : Config) (e : ModelExperiment) :
    Returns (Overridden c) (applyFunctionExperimentPromote c now e) := by
  unfold applyFunctionExperimentPromote
  exact returns_seq fun _ => returns_pure ⟨_, _, _, rfl⟩

theorem applyReject_overrides (c : Config) (e : ModelExperiment) :
    Overridden c (applyFunctionExperimentReject c e) :=
  ⟨_, _, _, rfl⟩

theorem isSanitized_new (agentId : Uuid) (prompt : String) :
    ({ agentId, systemPrompt := prompt } : Policy).isSanitized = true :=
  rfl

theorem Proper.ensurePolicy (h : Proper c) (id : Uuid) (prompt : String) :
    Proper (ensurePolicy c id prompt) := by
  unfold Allgres.ensurePolicy
  split_ifs with hsome
  · exact h
  · have hnone : c.policy? id = none := by simpa using hsome
    refine ⟨?_, fun p hp => ?_, h.proposable⟩
    · rw [List.map_append, List.nodup_append]
      refine ⟨h.unique, List.nodup_singleton _, fun a ha b hb hab => ?_⟩
      obtain ⟨p, hp, rfl⟩ := List.mem_map.mp ha
      have hne := List.find?_eq_none.mp hnone p hp
      exact hne (by simpa using hab.trans (List.mem_singleton.mp hb))
    · rcases List.mem_append.mp hp with hp | hp
      · exact h.sanitized p hp
      · rw [List.mem_singleton.mp hp]
        exact isSanitized_new id prompt

theorem Proper.setPrompt (h : Proper c) (id : Uuid) (text : String) :
    Proper { c with
      policies := update (·.agentId = id) (fun p => { p with systemPrompt := text }) c.policies } := by
  refine ⟨?_, fun p hp => ?_, h.proposable⟩
  · have hids : (update (·.agentId = id) (fun p => { p with systemPrompt := text }) c.policies).map
        (·.agentId) = c.policies.map (·.agentId) := by
      apply map_update
      intro p
      rfl
    exact hids ▸ h.unique
  · obtain ⟨q, hq, rfl⟩ := mem_update.mp hp
    split_ifs <;> exact h.sanitized q hq

theorem Proper.fnCreateAgent (h : Proper c) (name prompt : Option String) :
    Returns (fun r => Proper r.1) (fnCreateAgent pg now c name prompt) := by
  unfold Allgres.fnCreateAgent
  refine returns_seq fun _ => returns_seq fun _ => returns_pure ?_
  have hrow : Proper { c with
      agents := c.agents ++ [{ agentId := c.nextId, name := btrim (orEmpty name) }]
      nextId := c.nextId + 1 } := h.of_tables rfl rfl
  have hmade := (hrow.ensurePolicy c.nextId pg.defaultPrompt).indexed (syncCapabilityIndex_indexed pg now _)
  have hprovision : ∀ d : Config, Proper d → Proper (fnProvisionAgentRole d c.nextId) :=
    fun d hd => hd.of_tables rfl rfl
  refine Proper.indexed (hprovision _ ?_) (queueEmbedding_indexed _ _ _ now)
  split
  · exact (hmade.setPrompt c.nextId _).indexed (syncCapabilityIndex_indexed pg now _)
  · exact hmade

theorem Proper.settle (h : Proper c) (id : Uuid) (status : ProposalStatus) (reply : Option String) :
    Proper (settleProposal now id status reply c) := by
  refine ⟨h.unique, h.sanitized, fun r hr hk => ?_⟩
  obtain ⟨q, hq, rfl⟩ := mem_update.mp hr
  split_ifs at hk ⊢ <;> exact h.proposable q hq hk

theorem Inside.settle {target : Uuid} (h : Inside target c c') (id : Uuid) (status : ProposalStatus)
    (reply : Option String) : Inside target c (settleProposal now id status reply c') := by
  refine ⟨h.policies, ?_⟩
  obtain ⟨ps, hs, rs, ks, es, n, fs, xs, rfl⟩ := h.rest
  exact ⟨_, _, _, _, _, _, _, _, rfl⟩

/-- The decision on an experiment, judged by what it keeps. -/
theorem returns_override {P : Config → Prop} (calls : List Call) (r : ChangeProposal)
    (reply : Option String) (op : Option String) (hstart : ∀ d, Overridden c d → P d)
    (hsettle : ∀ d status reply, P d → P (settleProposal now r.proposalId status reply d)) :
    Returns (fun x => P x.1) (if op = some "start_experiment" then approveStart now c calls r reply
      else closeExperiment now c r reply op) := by
  refine returns_ite (fun _ => ?_) fun _ => ?_
  · unfold approveStart
    refine returns_seq fun percent => returns_seq fun samples => ?_
    split
    · refine returns_seq fun _ => returns_seq fun _ => ?_
      refine returns_bind (applyStart_overrides c calls _ _ _ _ _ _ _) fun x hx => returns_pure ?_
      exact hsettle _ _ _ (hstart _ hx)
    · exact returns_error _
  · unfold closeExperiment
    refine returns_seq fun id => ?_
    split
    · exact returns_pure (hsettle _ _ _ (hstart c ⟨_, _, _, rfl⟩))
    · rename_i e _
      refine returns_ite (fun _ => ?_) fun _ => ?_
      · refine returns_bind (applyPromote_overrides now c e) fun d hd => returns_pure ?_
        exact hsettle _ _ _ (hstart d hd)
      · exact returns_pure (hsettle _ _ _ (hstart _ (applyReject_overrides c e)))

theorem Proper.approveProposal (h : Proper c) (calls : List Call) (r : ChangeProposal)
    (reply : Option String) : Returns (fun x => Proper x.1) (approveProposal pg now c calls r reply) := by
  unfold Allgres.approveProposal
  dsimp only
  split
  · refine returns_bind (h.fnCreateAgent pg now _ _) fun x hx => returns_pure ?_
    exact hx.settle now _ _ _
  · refine returns_bind (fnCreateFunction_same pg now c _ _ _ _ _ _ _ _) fun x hx => returns_pure ?_
    exact (h.same hx).settle now _ _ _
  · split
    · exact returns_error _
    · refine returns_bind (fnUpdateFunction_same pg now c _ _ _ _) fun x hx => returns_pure ?_
      exact (h.same hx).settle now _ _ _
  · exact returns_override now calls r reply _ (fun d hd => h.same hd.same) fun d _ _ hd => hd.settle now _ _ _
  · unfold approvePolicyChange
    refine returns_ite (fun _ => returns_pure (h.settle now _ _ _)) fun _ => ?_
    have hset : Returns (fun x => Proper x.1) (Allgres.fnSetPolicy pg now c r.target r.policyChange) :=
      fun _ hx => h.fnSetPolicy hx
    exact returns_bind hset fun x hx => returns_pure (hx.settle now _ _ _)

theorem Proper.fnDecideProposal (h : Proper c) (calls : List Call) (id : Uuid) (approve : Option Bool)
    (reply : Option String) :
    Returns (fun x => Proper x.1) (fnDecideProposal pg now c calls id approve reply) := by
  unfold Allgres.fnDecideProposal
  split
  · exact returns_error _
  · refine returns_seq fun _ => returns_ite (fun _ => returns_pure (h.settle now _ _ _)) fun _ => ?_
    exact h.approveProposal pg now calls _ reply

/-- The decision on what a `propose_change` has queued. -/
theorem inside_fnDecideProposal (h : Proper c) (calls : List Call) {id : Uuid} {r : ChangeProposal}
    (hr : proposal? c id = some r) (hkind : r.kind = .policyChange ∨ r.kind = .functionOverride)
    (approve : Option Bool) (reply : Option String) :
    Returns (fun x => Inside r.target c x.1) (fnDecideProposal pg now c calls id approve reply) := by
  unfold Allgres.fnDecideProposal
  simp only [hr]
  refine returns_seq fun _ => returns_ite (fun _ => ?_) fun _ => ?_
  · exact returns_pure ((Inside.refl r.target c).settle now _ _ _)
  · unfold Allgres.approveProposal
    rcases hkind with hkind | hkind
    · simp only [hkind]
      unfold approvePolicyChange
      refine returns_ite (fun _ => returns_pure ((Inside.refl r.target c).settle now _ _ _)) fun _ => ?_
      have hv : Proposable r.proposedChanges :=
        h.proposable r (List.mem_of_find?_eq_some hr) hkind
      have hset : Returns (fun x => Inside r.target c x.1)
          (Allgres.fnSetPolicy pg now c r.target r.policyChange) :=
        fun _ hx => inside_fnSetPolicy h hv hx
      exact returns_bind hset fun x hx => returns_pure (hx.settle now _ _ _)
    · simp only [hkind]
      exact returns_override now calls r reply _ (fun d hd => hd.inside r.target)
        fun d _ _ hd => hd.settle now _ _ _

end Writers

theorem returns_orRefuse {α : Type} {Q : α → Prop} {x : Except Refusal α} (h : Returns Q x) :
    Returns Q (orRefuse x) := by
  intro v hv
  cases x with
  | error r => cases hv
  | ok w =>
    obtain rfl : w = v := by simpa [orRefuse] using hv
    exact h w rfl

theorem returns_orRaise {α : Type} {Q : α → Prop} {x : Except String α} (h : Returns Q x) :
    Returns Q (orRaise x) := by
  intro v hv
  cases x with
  | error e => cases hv
  | ok w =>
    obtain rfl : w = v := by simpa [orRaise] using hv
    exact h w rfl

theorem returns_castOr {α : Type} (cast : String → Option α) (type : String) (o : Option String) :
    Returns (fun w => w = o.bind cast) (castOr cast type o) := by
  cases o with
  | none => exact returns_ok rfl
  | some t =>
    unfold castOr
    dsimp only
    split
    · rename_i w hw
      exact returns_ok hw.symm
    · exact returns_error _

/-- The agent that a `propose_change` is about. -/
def changeTarget (t : Task) (v : Json) : Uuid :=
  ((nullIfEmpty (v.text "target_agent_id")).bind castUuid).getD t.agentId

namespace Turn

variable (pg : Postgres) (T : Turn) (v : Json)

theorem returns_policyChanges : Returns Proposable (policyChanges v) := by
  unfold policyChanges
  dsimp only
  split
  · exact returns_error _
  · rename_i changes _
    refine returns_ite (fun _ => returns_error _) fun _ => returns_ite (fun _ => returns_error _) fun _ => ?_
    split
    · rename_i hcfg
      exact returns_ok fun cfg h => by simp [hcfg] at h
    · rename_i cfg hcfg
      refine returns_ite (fun hok => returns_ok fun cfg' hcfg' => ?_) fun _ => returns_error _
      obtain rfl : cfg = cfg' := by simpa [hcfg] using hcfg'
      have hall := hok.2
      unfold keysWithin at hall
      rw [Bool.and_eq_true] at hall
      have hmem : ∀ key ∈ cfg.keys, key ∈ tunable := by
        intro key hkey
        simpa [tunable] using List.all_eq_true.mp hall.2 key hkey
      exact ⟨hok.1, hmem⟩

theorem get_of_not_has {key : String} (h : v.has key = false) : v.get key = none := by
  cases v with
  | obj fs =>
    refine List.lookup_eq_none_iff.mpr fun f hf => ?_
    have hne := List.any_eq_false.mp h f hf
    have hne' : key ≠ f.1 := fun he => hne (by simp [he])
    simpa using hne'
  | _ => rfl

theorem returns_policyTarget (changes : Json) :
    Returns (fun id => id = changeTarget T.task v) (T.policyTarget v changes) := by
  unfold policyTarget
  refine returns_ite (fun hno => returns_pure ?_) fun _ => returns_guard fun _ => ?_
  · have hget : v.get "target_agent_id" = none := get_of_not_has v (by simpa using hno)
    simp [changeTarget, Json.text, hget, nullIfEmpty]
  · refine returns_bind (returns_castOr castUuid "uuid" _) fun o ho => ?_
    split
    · refine returns_pure ?_
      simp [changeTarget, ← ho]
    · refine returns_ite (fun _ => returns_pure ?_) fun _ => returns_orRefuse (returns_error _)
      simp [changeTarget, ← ho]

theorem Proper.propose {T : Turn} (h : Proper T.cfg) {row : ChangeProposal}
    (hrow : row.kind = .policyChange → Proposable row.proposedChanges) (logged : List (String × Json)) :
    Proper (T.propose row logged).cfg := by
  refine ⟨h.unique, h.sanitized, fun r hr hk => ?_⟩
  rcases List.mem_append.mp hr with hr | hr
  · exact h.proposable r hr hk
  · rw [List.mem_singleton.mp hr] at hk ⊢
    exact hrow hk

theorem inside_propose (row : ChangeProposal) (logged : List (String × Json)) (target : Uuid) :
    Inside target T.cfg (T.propose row logged).cfg := by
  refine inside_of_same ?_ target ?_
  · rfl
  · exact ⟨_, _, _, _, _, _, _, _, rfl⟩

theorem functionOverride_inside (h : Proper T.cfg) (target : Uuid) :
    Returns (fun s => Proper s.cfg ∧ Inside target T.cfg s.cfg) (T.functionOverride v) := by
  have hqueue : ∀ id, Proper (T.queueOverride v id).cfg ∧ Inside target T.cfg (T.queueOverride v id).cfg :=
    fun id => ⟨Proper.propose h (fun hk => by cases hk) _, T.inside_propose _ _ target⟩
  have happly : ∀ {d : Config}, Overridden T.cfg d → Proper d ∧ Inside target T.cfg d :=
    fun hd => ⟨h.same hd.same, hd.inside target⟩
  unfold functionOverride
  refine returns_seq fun id => ?_
  split
  · exact returns_orRefuse (returns_error _)
  · unfold startOverride
    refine returns_seq fun percent => returns_seq fun cap => returns_seq fun _ =>
      returns_ite (fun _ => returns_seq fun samples => ?_) fun _ => returns_pure (hqueue id)
    refine returns_bind (returns_orRaise (applyStart_overrides T.cfg _ _ _ _ _ _ _ _)) fun x hx =>
      returns_pure ?_
    exact happly hx
  · unfold promoteOverride
    refine returns_seq fun e => returns_seq fun _ => returns_seq fun slack => ?_
    dsimp only
    split
    · rename_i d hd
      refine returns_pure (happly ?_)
      split_ifs at hd
      cases hp : applyFunctionExperimentPromote T.cfg T.now e with
      | error m => simp [hp, Except.toOption] at hd
      | ok d' =>
        obtain rfl : d' = d := by simpa [hp, Except.toOption] using hd
        exact applyPromote_overrides T.now T.cfg e d' hp
    · exact returns_pure (hqueue id)
  · unfold rejectOverride
    refine returns_seq fun e => returns_seq fun _ => returns_seq fun _ =>
      returns_ite (fun _ => returns_pure (hqueue id)) fun _ => returns_pure ?_
    exact happly (applyReject_overrides T.cfg e)

theorem policyChange_inside (h : Proper T.cfg) :
    Returns (fun s => Proper s.cfg ∧ Inside (changeTarget T.task v) T.cfg s.cfg) (T.policyChange pg v) := by
  unfold policyChange
  refine returns_bind (returns_orRefuse (returns_policyChanges v)) fun changes hchanges => ?_
  refine returns_bind (T.returns_policyTarget v changes) fun target htarget => ?_
  subst htarget
  refine returns_ite (fun _ => ?_) fun _ => ?_
  · have hset : Returns (fun x => Proper x.1 ∧ Inside (changeTarget T.task v) T.cfg x.1)
        (fnSetPolicy pg T.now T.cfg (changeTarget T.task v) (proposedChange changes)) :=
      fun _ hx => ⟨h.fnSetPolicy hx, inside_fnSetPolicy h hchanges hx⟩
    exact returns_bind (returns_orRaise hset) fun x hx => returns_pure hx
  · split
    · exact returns_pure ⟨Proper.propose h (fun _ => hchanges) _, T.inside_propose _ _ _⟩
    · exact returns_pure ⟨h, Inside.refl _ _⟩

theorem proposeChange_inside (h : Proper T.cfg) :
    Returns (fun s => Proper s.cfg ∧ Inside (changeTarget T.task v) T.cfg s.cfg) (T.proposeChange pg v) := by
  unfold proposeChange
  exact returns_ite (fun _ => T.functionOverride_inside v h _) fun _ => T.policyChange_inside pg v h

theorem createAgent_proper (h : Proper T.cfg) : Returns (fun s => Proper s.cfg) (T.createAgent pg v) := by
  unfold createAgent
  refine returns_guard fun _ => returns_guard fun _ => returns_ite (fun _ => ?_) fun _ => ?_
  · exact returns_bind (returns_orRaise (h.fnCreateAgent pg T.now _ _)) fun x hx => returns_pure hx
  · exact returns_pure (Proper.propose h (fun hk => by cases hk) _)

theorem createFunction_proper (h : Proper T.cfg) :
    Returns (fun s => Proper s.cfg) (T.createFunction pg v) := by
  unfold createFunction
  refine returns_guard fun _ => returns_ite (fun _ => ?_) fun _ => ?_
  · split
    · rename_i hok
      exact returns_pure (h.same (fnCreateFunction_same pg T.now T.cfg _ _ _ _ _ _ _ _ _ hok))
    · exact returns_error _
  · exact returns_pure (Proper.propose h (fun hk => by cases hk) _)

theorem updateFunction_proper (h : Proper T.cfg) :
    Returns (fun s => Proper s.cfg) (T.updateFunction pg v) := by
  unfold updateFunction
  refine returns_seq fun target => returns_ite (fun _ => ?_) fun _ => ?_
  · split
    · rename_i hok
      exact returns_pure (h.same (fnUpdateFunction_same pg T.now T.cfg _ _ _ _ _ hok))
    · exact returns_orRefuse (returns_error _)
  · exact returns_pure (Proper.propose h (fun hk => by cases hk) _)

theorem proposeFix_proper (h : Proper T.cfg) : Returns (fun s => Proper s.cfg) (T.proposeFix pg v) := by
  unfold proposeFix
  refine returns_seq fun kt => returns_ite (fun _ => ?_) fun _ => ?_
  · refine returns_bind (returns_orRaise (applyFix_same pg T.now T.cfg _ _ _)) fun x hx => returns_pure ?_
    exact h.same hx
  · exact returns_pure (h.of_tables rfl rfl)

theorem remember_proper (h : Proper T.cfg) : Returns (fun s => Proper s.cfg) (T.remember pg v) := by
  unfold remember
  split
  · exact returns_orRefuse (returns_error _)
  · rename_i hok
    refine returns_seq fun compacted => returns_pure ?_
    exact h.same (writeMemory_same pg T.now T.cfg _ _ _ _ _ _ _ _ _ hok)

/-- The other actions leave the configuration alone. -/
theorem callFunction_cfg : Returns (fun s => s.cfg = T.cfg) (T.callFunction v) := by
  unfold callFunction
  refine returns_seq fun callee => ?_
  cases callee with
  | plpgsql f =>
    unfold queueFunction
    exact returns_ite (fun _ => returns_error _) fun _ => returns_ok rfl
  | outgoing name args bound =>
    unfold outgoingCall
    refine returns_seq fun d => ?_
    dsimp only
    split
    · refine returns_seq fun url => ?_
      refine returns_guard fun _ => ?_
      exact returns_seq fun headers => returns_pure rfl
    · refine returns_seq fun url => ?_
      refine returns_guard fun _ => ?_
      exact returns_seq fun headers => returns_pure rfl

theorem runProcedure_cfg : Returns (fun s => s.cfg = T.cfg) (T.runProcedure v) := by
  unfold runProcedure
  dsimp only
  split
  · exact returns_error _
  · split
    · exact returns_error _
    · exact returns_ite (fun _ => returns_error _) fun _ => returns_ok rfl

theorem embeddingQuery_cfg (kind : OutboundKind) (action : String) :
    Returns (fun s => s.cfg = T.cfg) (T.embeddingQuery v kind action) := by
  unfold embeddingQuery
  split
  · exact returns_error _
  · exact returns_error _
  · dsimp only
    split
    · exact returns_error _
    · exact returns_ok rfl

/-- The actions that write the configuration. -/
def configures : Action → Bool
  | .proposeChange | .remember | .createAgent | .proposeFix | .createFunction | .updateFunction => true
  | _ => false

/-- Only six of the actions have to be looked at for what a step does to the configuration. -/
theorem act_cfg {Q : Config → Prop} (hown : Q T.cfg) (a : Action)
    (h : configures a = true → Returns (fun s => Q s.cfg) (T.act pg a v)) :
    Returns (fun s => Q s.cfg) (T.act pg a v) := by
  have hsame : ∀ {ε : Type} {x : Except ε Step}, Returns (fun s => s.cfg = T.cfg) x →
      Returns (fun s => Q s.cfg) x := by
    intro ε x hx
    refine returns_mono hx fun s hs => ?_
    rw [hs]
    exact hown
  cases a with
  | finalAnswer =>
    rw [act]
    refine returns_orRefuse (hsame ?_)
    unfold finalAnswer
    dsimp only
    split
    · exact returns_error _
    · exact returns_ok rfl
  | executeSql =>
    rw [act]
    refine returns_orRefuse (hsame ?_)
    unfold executeSql
    split
    · exact returns_error _
    · exact returns_ok rfl
  | callFunction =>
    rw [act]
    exact returns_orRefuse (hsame (T.callFunction_cfg v))
  | runProcedure =>
    rw [act]
    exact returns_orRefuse (hsame (T.runProcedure_cfg v))
  | delegate =>
    rw [act]
    unfold delegate
    exact hsame (returns_seq fun target => returns_seq fun wait => returns_pure rfl)
  | searchAgents =>
    rw [act]
    exact returns_orRefuse (hsame (T.embeddingQuery_cfg v _ _))
  | searchCapabilities =>
    rw [act]
    unfold searchCapabilities
    exact returns_orRefuse (hsame (returns_bind (T.embeddingQuery_cfg v _ _) fun s hs => returns_pure hs))
  | recallMemories =>
    rw [act]
    exact returns_orRefuse (hsame (T.embeddingQuery_cfg v _ _))
  | awaitHuman =>
    rw [act]
    exact returns_ok hown
  | awaitChildren =>
    rw [act]
    unfold awaitChildren
    exact returns_orRefuse (hsame (returns_ite (fun _ => returns_ok rfl) fun _ => returns_error _))
  | proposeChange => exact h rfl
  | remember => exact h rfl
  | createAgent => exact h rfl
  | proposeFix => exact h rfl
  | createFunction => exact h rfl
  | updateFunction => exact h rfl

theorem act_proper (h : Proper T.cfg) (a : Action) : Returns (fun s => Proper s.cfg) (T.act pg a v) := by
  refine T.act_cfg pg v h a fun ha => ?_
  cases a with
  | proposeChange =>
    rw [act]
    exact returns_mono (T.proposeChange_inside pg v h) fun s hs => hs.1
  | remember =>
    rw [act]
    exact T.remember_proper pg v h
  | createAgent =>
    rw [act]
    exact T.createAgent_proper pg v h
  | proposeFix =>
    rw [act]
    exact T.proposeFix_proper pg v h
  | createFunction =>
    rw [act]
    exact returns_orRefuse (T.createFunction_proper pg v h)
  | updateFunction =>
    rw [act]
    exact T.updateFunction_proper pg v h
  | _ => cases ha

/-- A submitted step is judged by its action, where it has one. -/
theorem payloadStep_cfg {Q : Config → Prop} (payload : Json) (hown : Q T.cfg)
    (hact : ∀ a v, actionOf (parsedReply payload) = some (a, v) → Returns (fun s => Q s.cfg) (T.act pg a v)) :
    Returns (fun s => Q s.cfg) (T.payloadStep pg payload) := by
  unfold payloadStep
  dsimp only
  refine returns_ite (fun _ => ?_) fun _ => returns_ite (fun _ => returns_ok hown) fun _ =>
    returns_ite (fun _ => returns_ok hown) fun _ => returns_ite (fun _ => returns_ok hown) fun _ =>
      returns_ok hown
  unfold llmResponse
  have hsettle : ∀ x : Except Halt Step, Returns (fun s => Q s.cfg) x →
      Returns (fun s => Q s.cfg) (T.settle x) := by
    intro x hx
    cases x with
    | ok s => exact returns_ok (hx s rfl)
    | error e =>
      cases e with
      | refuse r => exact returns_ok hown
      | raise m => exact returns_error _
  refine returns_bind (hsettle _ ?_) fun s hs => returns_pure hs
  split
  · exact returns_error _
  · rename_i a v hav
    exact hact a v hav

end Turn

theorem cfg_applyNext (db : Db) (t : Task) (next : Next) (now : Time) :
    (db.applyNext t next now).cfg = db.cfg := by
  cases next with
  | delegate child wait => cases wait <;> rfl
  | finalAnswer answer => exact cfg_maybeCompleteSession _ _ _
  | fail error => exact cfg_maybeCompleteSession _ _ _
  | _ => rfl

/-- What a result does to the configuration is what its action does. -/
theorem fnSubmitResult_cfg {Q : Config → Prop} (pg : Postgres) (now : Time) (db : Db) (id : Uuid)
    (payload : Json) (hown : Q db.cfg)
    (hact : ∀ T : Turn, T.db = db → db.task? id = some T.task → ∀ a v,
      actionOf (Turn.parsedReply payload) = some (a, v) → Returns (fun s => Q s.cfg) (T.act pg a v)) :
    Returns (fun x => Q x.1.cfg) (fnSubmitResult pg now db id payload) := by
  unfold fnSubmitResult
  split
  · exact returns_error _
  · rename_i t ht
    refine returns_ite (fun _ => returns_error _) fun _ => ?_
    split
    · refine returns_ok ?_
      have hfail : ∀ e content, (db.failTask t e content now).cfg = db.cfg :=
        fun e content => cfg_maybeCompleteSession _ _ _
      rw [hfail]
      exact hown
    · refine returns_bind (Turn.payloadStep_cfg pg _ payload hown fun a v hav => ?_) fun s hs =>
        returns_pure ?_
      · exact hact _ rfl ht a v hav
      · rw [cfg_applyNext, cfg_record]
        exact hs

inductive PolicyEvent where
  | submit (now : Time) (taskId : Uuid) (payload : Json)
  | decide (now : Time) (id : Uuid) (approve : Option Bool) (reply : Option String)
  | setPolicy (now : Time) (agentId : Uuid) (change : PolicyChange)
  | rollback (now : Time) (agentId : Uuid) (generation : Nat)
  | createAgent (now : Time) (name prompt : Option String)
  | elsewhere (f : Db → Db)

/-- What other code leaves of the two tables: it writes no `llm_config` of its own and queues
no change of a policy. -/
def keepsTables (c c' : Config) : Bool :=
  decide (c'.policies.map (·.agentId)).Nodup && c'.policies.all Policy.isSanitized &&
    c'.changeProposals.all fun r => r.kind ≠ .policyChange || c.changeProposals.contains r

/-- The configuration a call leaves, or the one before a call that raises. -/
def setCfg {α : Type} (db : Db) (x : Except String (Config × α)) : Db :=
  match x with
  | .ok (cfg, _) => { db with cfg }
  | .error _ => db

def policyStep (pg : Postgres) (db : Db) : PolicyEvent → Db
  | .submit now taskId payload => match fnSubmitResult pg now db taskId payload with
    | .ok (db', _) => db'
    | .error _ => db
  | .decide now id approve reply =>
    setCfg db (fnDecideProposal pg now db.cfg db.calls id approve reply)
  | .setPolicy now agentId change => setCfg db (fnSetPolicy pg now db.cfg agentId change)
  | .rollback now agentId generation => setCfg db (fnRollbackPolicy pg now db.cfg agentId generation)
  | .createAgent now name prompt => setCfg db (fnCreateAgent pg now db.cfg name prompt)
  | .elsewhere f => if keepsTables db.cfg (f db).cfg then f db else db

theorem setCfg_of_returns {α : Type} {Q : Config → Prop} {db : Db} {x : Except String (Config × α)}
    (hown : Q db.cfg) (h : Returns (fun r => Q r.1) x) : Q (setCfg db x).cfg := by
  cases x with
  | error e => exact hown
  | ok r => exact h r rfl

theorem Proper.step {pg : Postgres} {db : Db} (h : Proper db.cfg) (e : PolicyEvent) :
    Proper (policyStep pg db e).cfg := by
  cases e with
  | submit now taskId payload =>
    have hret : Returns (fun x => Proper x.1.cfg) (fnSubmitResult pg now db taskId payload) := by
      refine fnSubmitResult_cfg pg now db taskId payload h fun T hT _ a v _ => ?_
      exact T.act_proper pg v (by rw [Turn.cfg, hT]; exact h) a
    dsimp only [policyStep]
    split
    · rename_i db' answer hok
      exact hret _ hok
    · exact h
  | decide now id approve reply =>
    exact setCfg_of_returns h (h.fnDecideProposal pg now db.calls id approve reply)
  | setPolicy now agentId change => exact setCfg_of_returns h fun _ hx => h.fnSetPolicy hx
  | rollback now agentId generation =>
    refine setCfg_of_returns h ?_
    unfold fnRollbackPolicy
    split
    · exact returns_error _
    · exact fun _ hx => h.fnSetPolicy hx
  | createAgent now name prompt => exact setCfg_of_returns h (h.fnCreateAgent pg now name prompt)
  | elsewhere f =>
    dsimp only [policyStep]
    split_ifs with hkeep
    · simp only [keepsTables, Bool.and_eq_true, decide_eq_true_eq, List.all_eq_true, Bool.or_eq_true,
        List.contains_eq_mem] at hkeep
      obtain ⟨⟨hids, hsan⟩, hrows⟩ := hkeep
      refine ⟨hids, hsan, fun r hr hk => ?_⟩
      rcases hrows r hr with hne | hmem
      · exact absurd hk hne
      · exact h.proposable r hmem hk
    · exact h

/-- A result whose action is `propose_change`, and a decision on what such a result has queued,
change the policies inside the envelope. -/
def Enveloped (before after : Db) : PolicyEvent → Prop
  | .submit _ taskId payload => ∀ t v, before.task? taskId = some t →
      actionOf (Turn.parsedReply payload) = some (.proposeChange, v) →
        Inside (changeTarget t v) before.cfg after.cfg
  | .decide _ id _ _ => ∀ r, proposal? before.cfg id = some r →
      r.kind = .policyChange ∨ r.kind = .functionOverride → Inside r.target before.cfg after.cfg
  | _ => True

theorem enveloped_step {pg : Postgres} {db : Db} (h : Proper db.cfg) (e : PolicyEvent) :
    Enveloped db (policyStep pg db e) e := by
  cases e with
  | submit now taskId payload =>
    intro t v ht hv
    have hret : Returns (fun x => Inside (changeTarget t v) db.cfg x.1.cfg)
        (fnSubmitResult pg now db taskId payload) := by
      refine fnSubmitResult_cfg pg now db taskId payload (Inside.refl _ _) fun T hT htask a w haw => ?_
      obtain ⟨rfl, rfl⟩ : Action.proposeChange = a ∧ v = w := by simpa [hv] using haw
      obtain rfl : t = T.task := by simpa [ht] using htask
      have hcfg : T.cfg = db.cfg := by rw [Turn.cfg, hT]
      rw [← hcfg, Turn.act]
      exact returns_mono (T.proposeChange_inside pg v (hcfg ▸ h)) fun s hs => hs.2
    dsimp only [policyStep]
    split
    · rename_i db' answer hok
      exact hret _ hok
    · exact Inside.refl _ _
  | decide now id approve reply =>
    intro r hr hkind
    exact setCfg_of_returns (Inside.refl _ _)
      (inside_fnDecideProposal pg now h db.calls hr hkind approve reply)
  | _ => trivial

/-- In every run, whether a `propose_change` is applied at once or decided later, it alters
no policy but that of its target, and of that only the prompt, the tunable keys of the
`llm_config` and the version. -/
theorem proposals_stay_inside (pg : Postgres) (db : Db) (h : Proper db.cfg) (es : List PolicyEvent)
    (e : PolicyEvent) : Enveloped (run (policyStep pg) db es)
      (policyStep pg (run (policyStep pg) db es) e) e := by
  have hstep : ∀ (d : Db) (e : PolicyEvent), Proper d.cfg → True → Proper (policyStep pg d e).cfg :=
    fun _ e hd _ => hd.step e
  have hproper : Proper (run (policyStep pg) db es).cfg :=
    @invariant _ _ _ _ (fun d : Db => Proper d.cfg) hstep _ _ h (along_true db es)
  exact enveloped_step hproper e

/-- A running task of an agent whose proposals wait for an operator. -/
def tunedAgent : Db where
  cfg :=
    { agents := [{ agentId := 1, name := "writer" }]
      policies := [{
        agentId := 1
        systemPrompt := "write"
        llmConfig := sanitizeLlmConfig (.object [("model", .str "small"), ("provider", .str "local")]) }]
      nextId := 9 }
  tasks := [{ taskId := 5, sessionId := 4, agentId := 1, status := .running, input := .null }]
  nextId := 9

def tuning : Json :=
  .object [("type", .str "llm_response"), ("parsed", .object [("action", .str "propose_change"),
    ("changes", .object [("llm_config", .object [("model", .str "big")])])])]

theorem proper_tunedAgent : Proper tunedAgent.cfg := by
  refine ⟨by decide, fun p hp => ?_, fun r hr => ?_⟩
  · rw [List.mem_singleton.mp hp]
    decide +kernel
  · cases hr

def tunedRun (e : List PolicyEvent) : Db :=
  run (policyStep bareServer) tunedAgent e

theorem tuning_approved :
    Inside 1 (tunedRun [.submit 1 5 tuning]).cfg
      (policyStep bareServer (tunedRun [.submit 1 5 tuning]) (.decide 2 9 (some true) none)).cfg ∧
    (policyStep bareServer (tunedRun [.submit 1 5 tuning]) (.decide 2 9 (some true) none)).cfg.policies.map
      (fun p => (p.llmConfig.text "model", p.llmConfig.text "provider")) = [(some "big", some "local")] := by
  have hinside := proposals_stay_inside bareServer tunedAgent proper_tunedAgent [.submit 1 5 tuning]
    (.decide 2 9 (some true) none)
  have hrow : ((proposal? (tunedRun [.submit 1 5 tuning]).cfg 9).map fun r => (r.kind, r.target)) =
      some (.policyChange, 1) := by decide +kernel
  obtain ⟨r, hr, hkt⟩ := Option.map_eq_some_iff.mp hrow
  obtain ⟨hkind, htarget⟩ := Prod.mk.inj hkt
  have hr' := hinside r hr (.inl hkind)
  rw [htarget] at hr'
  exact ⟨hr', by decide +kernel⟩

end Allgres
