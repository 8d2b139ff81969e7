import Allgres.Envelope
import Allgres.PolicyHistory

/-! What a rollback restores. It goes through the setter for partial edits, which merges an
`llm_config` into the live one: a key that the archived version lacks stays. -/

namespace Allgres

open Raise Rows Runs Versions

section Settings

variable {u v a b : Json}

theorem get_sanitize_congr {key : String} (h : u.get key = v.get key) :
    (sanitizeLlmConfig u).get key = (sanitizeLlmConfig v).get key := by
  by_cases hkey : key ∈ ["model", "temperature", "max_tokens", "provider"]
  · rw [get_sanitize, get_sanitize]
    simp only [List.mem_cons, List.not_mem_nil, or_false] at hkey
    rcases hkey with rfl | rfl | rfl | rfl <;> simp [Json.text, h, List.lookup_cons]
  · have htunable : key ∉ tunable := fun hmem => hkey (by simp_all [tunable])
    have hprov : key ≠ "provider" := fun he => hkey (by simp [he])
    rw [get_sanitize_of_not_mem htunable hprov, get_sanitize_of_not_mem htunable hprov]

theorem sanitize_congr (h : ∀ key, u.get key = v.get key) : sanitizeLlmConfig u = sanitizeLlmConfig v := by
  simp only [sanitizeLlmConfig, Json.text, h]

/-- The fields of a sanitized configuration, in the order of `jsonb`. -/
theorem sanitize_fields (v : Json) : ∃ gs, sanitizeLlmConfig v = .obj gs ∧ (gs.map (·.1)).Nodup := by
  have htemp : Json.keyLt "temperature" "model" = false := by decide
  have htokens : Json.keyLt "max_tokens" "model" = false := by decide
  have htokens' : Json.keyLt "max_tokens" "temperature" = true := by decide
  have hprov : Json.keyLt "provider" "model" = false := by decide
  have hprov' : Json.keyLt "provider" "temperature" = true := by decide
  have hprov'' : Json.keyLt "provider" "max_tokens" = true := by decide
  rw [sanitizeLlmConfig, Json.stripNulls_eq]
  simp only [List.filterMap_cons, List.filterMap_nil]
  generalize Json.nonNull ((nullIfEmpty (v.text "model")).map .str) = model
  generalize Json.nonNull (v.get "temperature") = temperature
  generalize Json.nonNull (v.get "max_tokens") = tokens
  generalize Json.nonNull ((nullIfEmpty (v.text "provider")).map .str) = provider
  cases model <;> cases temperature <;> cases tokens <;> cases provider <;>
    exact ⟨_, rfl, by simp [Json.setField, htemp, htokens, htokens', hprov, hprov', hprov'']⟩

theorem get_merge_sanitized (ha : sanitizeLlmConfig a = a) (hb : sanitizeLlmConfig b = b) (key : String) :
    (a.merge b).get key = (b.get key).or (a.get key) := by
  obtain ⟨fs, hfs, -⟩ := sanitize_fields a
  obtain ⟨gs, hgs, hnodup⟩ := sanitize_fields b
  rw [ha] at hfs
  rw [hb] at hgs
  rw [hfs, hgs]
  exact Json.get_merge hnodup key

/-- Merged into another configuration, one comes out as it is if it has all its keys. -/
theorem sanitize_merge_eq_iff (ha : sanitizeLlmConfig a = a) (hb : sanitizeLlmConfig b = b) :
    sanitizeLlmConfig (a.merge b) = b ↔ ∀ key ∈ a.keys, key ∈ b.keys := by
  have hget := get_merge_sanitized ha hb
  constructor
  · intro heq key hkey
    rw [Json.mem_keys] at hkey ⊢
    by_contra hnone
    have hb' : b.get key = none := by simpa using hnone
    have hmerge : (a.merge b).get key = a.get key := by rw [hget, hb', Option.none_or]
    have hsan := get_sanitize_congr hmerge
    rw [heq, ha, hb'] at hsan
    rw [← hsan] at hkey
    cases hkey
  · intro hkeys
    have hall : ∀ key, (a.merge b).get key = b.get key := by
      intro key
      rw [hget]
      cases hk : b.get key with
      | some w => rfl
      | none =>
        have hnot : key ∉ a.keys := by
          intro hmem
          have hb' := Json.mem_keys.mp (hkeys key hmem)
          rw [hk] at hb'
          cases hb'
        have ha' : a.get key = none := by simpa [Json.mem_keys] using hnot
        rw [ha', Option.none_or]
    rw [sanitize_congr hall, hb]

end Settings

section Restore

variable {agentId : Uuid} {p h : Policy}

/-- What every version of a policy keeps to from its creation. -/
structure Policy.Sound (agentId : Uuid) (p : Policy) : Prop where
  owner : p.agentId = agentId
  sanitized : p.isSanitized = true
  prompt : p.systemPrompt ≠ ""

theorem nullIfEmpty_of_ne {t : String} (ht : t ≠ "") : nullIfEmpty (some t) = some t := by
  simp [nullIfEmpty, ht]

theorem Policy.Sound.next (hp : p.Sound agentId) {q : Policy} (hq : NewPolicy p q) : q.Sound agentId := by
  obtain ⟨change, rfl⟩ := hq
  have hprompt : (nullIfEmpty change.prompt).getD p.systemPrompt ≠ "" := by
    cases hc : change.prompt with
    | none => exact hp.prompt
    | some t =>
      by_cases ht : t = ""
      · simpa [nullIfEmpty, ht] using hp.prompt
      · simp [nullIfEmpty, ht]
  refine ⟨(newVersion_agentId p change).trans hp.owner, isSanitized_apply hp.sanitized change, ?_⟩
  change (change.apply p).systemPrompt ≠ ""
  rcases PolicyChange.apply_cases change p with happly | ⟨_, -, happly⟩
  · rw [happly]
    exact hp.prompt
  · rw [happly]
    exact hprompt

theorem turnSeconds_restore (h p : Policy) : h.restore.turnSeconds p = h.maxTurnSeconds := by
  cases hs : h.maxTurnSeconds <;> simp [PolicyChange.turnSeconds, Policy.restore, hs]

/-- The bounds of an archived version are not refused. -/
theorem violated_restore (h p : Policy) : h.restore.violated p = none := by
  rw [PolicyChange.violated, turnSeconds_restore]
  exact h.checked

theorem apply_restore (hp : p.Sound agentId) (hh : h.Sound agentId) : h.restore.apply p =
    { h with
      llmConfig := sanitizeLlmConfig (p.llmConfig.merge h.llmConfig)
      generation := p.generation } := by
  have hprompt := nullIfEmpty_of_ne hh.prompt
  have hid : p.agentId = h.agentId := hp.owner.trans hh.owner.symm
  rw [PolicyChange.apply_of_ok (PolicyChange.newRow_of_free (violated_restore h p))]
  have hturn := turnSeconds_restore h p
  simp only [Policy.restore] at hturn
  simp [PolicyChange.row, Policy.restore, hprompt, hturn, hid]

theorem sameFields_restore (hp : p.Sound agentId) (hh : h.Sound agentId) :
    (PolicyLoc.newVersion p h.restore).SameFields h ↔
      ∀ key ∈ p.llmConfig.keys, key ∈ h.llmConfig.keys := by
  have hsp : sanitizeLlmConfig p.llmConfig = p.llmConfig := by simpa [Policy.isSanitized] using hp.sanitized
  have hsh : sanitizeLlmConfig h.llmConfig = h.llmConfig := by simpa [Policy.isSanitized] using hh.sanitized
  have hnew : { PolicyLoc.newVersion p h.restore with generation := h.generation } =
      { h with llmConfig := sanitizeLlmConfig (p.llmConfig.merge h.llmConfig) } := by
    rw [PolicyLoc.newVersion, apply_restore hp hh]
  rw [Policy.SameFields, hnew, ← sanitize_merge_eq_iff hsp hsh]
  constructor
  · exact fun heq => congrArg Policy.llmConfig heq
  · intro heq
    rw [heq]

end Restore

section Rollback

variable {pg : Postgres} {agentId : Uuid} {c : Config} {p q h : Policy} {generation : Nat}

theorem archived?_mem (hh : archived? c agentId generation = some h) :
    h ∈ archivedPolicies agentId c := by
  have hmem := List.mem_of_find?_eq_some hh
  have hid := List.find?_some hh
  simp only [decide_eq_true_eq] at hid
  exact List.mem_filter.mpr ⟨hmem, by simpa using hid.1⟩

/-- The row after a rollback is a version made of the archived one. -/
theorem policy?_rollback (now : Time) (hq : c.policy? agentId = some q)
    (hh : archived? c agentId generation = some h) :
    (policyCall pg agentId c (.rollback now agentId generation)).policy? agentId =
      some (PolicyLoc.newVersion q h.restore) := by
  have hid : q.agentId = agentId := by simpa using List.find?_some hq
  obtain ⟨c', answer, hok, htables⟩ := fnSetPolicy_tables pg now c hq
    (PolicyChange.newRow_of_free (violated_restore h q))
  have hcall : policyCall pg agentId c (.rollback now agentId generation) = c' := by
    simp [policyCall, fnRollbackPolicy, hh, hok, afterCall, Except.map, Except.toOption]
  have hrow := policy?_write q h.restore none { cfg := c } agentId
  rw [if_pos hid.symm, hq] at hrow
  rw [hcall, Config.policy?, (Prod.mk.inj htables).1]
  exact hrow

/-- After any calls, a rollback restores an archived version exactly when the live
`llm_config` has no key that the archived one lacks. -/
theorem rollback_restores_iff (pg : Postgres) (agentId : Uuid) (c : Config) (p : Policy)
    (hp : c.policy? agentId = some p) (hsan : p.isSanitized = true) (hprompt : p.systemPrompt ≠ "")
    (hnone : archivedPolicies agentId c = []) (calls : List PolicyCall) (now : Time)
    (generation : Nat) (q h : Policy)
    (hq : (run (policyCall pg agentId) c calls).policy? agentId = some q)
    (hh : archived? (run (policyCall pg agentId) c calls) agentId generation = some h) :
    ∃ r, (policyCall pg agentId (run (policyCall pg agentId) c calls)
        (.rollback now agentId generation)).policy? agentId = some r ∧
      (r.SameFields h ↔ ∀ key ∈ q.llmConfig.keys, key ∈ h.llmConfig.keys) := by
  have ht := policyCall_tracks pg agentId
  have hstart := policyLine_start hp hnone
  have hfirst : ∀ v ∈ (⟨p, []⟩ : Line Policy).versions, v.Sound agentId := by
    intro v hv
    obtain rfl : v = p := by simpa [Line.versions] using hv
    exact ⟨by simpa using List.find?_some hp, hsan, hprompt⟩
  obtain ⟨l, hl, -⟩ := ht.run hstart calls
  have hsound := ht.all (fun _ _ hv hnew => hv.next hnew) hstart hfirst calls hl
  obtain ⟨hlive, harchive⟩ := policyLine_eq_some.mp hl
  obtain rfl : l.live = q := by simpa [hlive] using hq
  have hmem : h ∈ l.versions := List.mem_append_left _ (harchive ▸ archived?_mem hh)
  exact ⟨_, policy?_rollback now hq hh, sameFields_restore (hsound _ l.live_mem) (hsound h hmem)⟩

/-- The temperature is set in the second version. -/
def heated : List PolicyCall :=
  [.set 1 1 { llmConfig := some (.object [("temperature", .str "1")]) }]

/-- It is another one in the third, which has more steps. -/
def reheated : List PolicyCall :=
  heated ++ [.set 2 1 { llmConfig := some (.object [("temperature", .str "0")]), maxSteps := some 7 }]

def heatedPolicy : Policy :=
  { agentId := 1
    systemPrompt := "write"
    llmConfig := .obj [("temperature", .str "1")]
    generation := 2 }

theorem temperature_restored : ∃ r,
    (policyCall bareServer 1 (run (policyCall bareServer 1) newAgent reheated)
      (.rollback 3 1 2)).policy? 1 = some r ∧ r.SameFields heatedPolicy := by
  obtain ⟨r, hr, hiff⟩ := rollback_restores_iff bareServer 1 newAgent
    { agentId := 1, systemPrompt := "write" } rfl (by decide) (by decide) rfl reheated 3 2
    { agentId := 1
      systemPrompt := "write"
      llmConfig := .obj [("temperature", .str "0")]
      maxSteps := 7
      generation := 3 }
    heatedPolicy (by decide +kernel) (by decide +kernel)
  exact ⟨r, hr, hiff.mpr (by decide)⟩

/-- The temperature of the second version is left in the first. -/
theorem temperature_survives :
    ¬ ∀ (pg : Postgres) (agentId : Uuid) (c : Config) (p : Policy), c.policy? agentId = some p →
      p.isSanitized = true → p.systemPrompt ≠ "" → archivedPolicies agentId c = [] →
      ∀ (calls : List PolicyCall) (now : Time) (generation : Nat) (h : Policy),
        archived? (run (policyCall pg agentId) c calls) agentId generation = some h →
        ∃ r, (policyCall pg agentId (run (policyCall pg agentId) c calls)
          (.rollback now agentId generation)).policy? agentId = some r ∧ r.SameFields h := by
  intro hall
  obtain ⟨r, hr, hsame⟩ := hall bareServer 1 newAgent { agentId := 1, systemPrompt := "write" } rfl
    (by decide) (by decide) rfl heated 2 1 { agentId := 1, systemPrompt := "write" } (by decide +kernel)
  have hrow : (policyCall bareServer 1 (run (policyCall bareServer 1) newAgent heated)
      (.rollback 2 1 1)).policy? 1 = some heatedPolicy := by
    decide +kernel
  rw [hrow, Option.some.injEq] at hr
  subst hr
  exact absurd (congrArg Policy.llmConfig hsame) (by decide)

end Rollback

end Allgres
