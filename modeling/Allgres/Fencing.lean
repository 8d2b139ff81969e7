import Mathlib.Data.List.Basic
import Allgres.Rows

/-! A row whose content is deployed to an object outside it. A worker claims the row,
deploys the content it claimed and reports; a report is accepted while the row waits for
one, whichever claim it comes from. A row that is done shows the deployed content as long
as no claim acts late: none reports before the last claim has deployed, and none deploys
other content after it. -/

namespace Fencing

open Rows

inductive Phase where
  | pending | building | built | failed
  deriving DecidableEq

structure Job (β : Type) where
  claim : Nat
  body : β
  outcome : Option Bool := none

structure Row (β : Type) where
  phase : Phase
  body : Option β
  object : Option β
  jobs : List (Job β) := []

variable {β : Type}

namespace Row

/-- The job of the last claim. -/
def latest (r : Row β) : Option (Job β) :=
  r.jobs.getLast?

def claimed (r : Row β) (n : Nat) (b : β) : Row β :=
  { r with
    phase := .building
    jobs := r.jobs ++ [{ claim := n, body := b }] }

def deployed (r : Row β) (j : Job β) (ok : Bool) : Row β :=
  { r with
    object := if ok then some j.body else r.object
    jobs := update (·.claim = j.claim) (fun k => { k with outcome := some ok }) r.jobs }

def reported (r : Row β) (ok : Bool) : Row β :=
  if r.phase = .building then { r with phase := if ok then .built else .failed } else r

end Row

/-- What can happen to a row. -/
inductive Move (r : Row β) : Row β → Prop
  | idle : Move r r
  | edit (b o : Option β) (hu : r.jobs = [] ∨ o = r.object) :
      Move r { r with phase := .pending, body := b, object := o }
  | claim {n : Nat} {b : β} (hp : r.phase = .pending) (hb : r.body = some b)
      (hn : ∀ j ∈ r.jobs, j.claim ≠ n) : Move r (r.claimed n b)
  | reset (hp : r.phase = .building) : Move r { r with phase := .pending }
  | deploy {j : Job β} (ok : Bool) (hj : j ∈ r.jobs) (ho : j.outcome = none)
      (ht : ok = true → ∀ l, r.latest = some l → l.outcome = some true → j.body = l.body) :
      Move r (r.deployed j ok)
  | report {j : Job β} (ok : Bool) (hj : j ∈ r.jobs) (ho : j.outcome = some ok)
      (ht : ok = true → r.phase = .building → ∀ l, r.latest = some l → l.outcome = some true) :
      Move r (r.reported ok)

/-- The last claim took the content that the row still has, a row that is done shows what
the last claim deployed, and nothing was deployed over that. -/
structure Sound (r : Row β) : Prop where
  claims : (r.jobs.map (·.claim)).Nodup
  taken : r.phase = .building ∨ r.phase = .built → ∀ l, r.latest = some l → r.body = some l.body
  done : r.phase = .built → ∀ l, r.latest = some l → l.outcome = some true
  shown : ∀ l, r.latest = some l → l.outcome = some true → r.object = some l.body
  built : r.phase = .built → r.object = r.body

section Step

variable {r : Row β}

theorem exists_latest {j : Job β} (h : j ∈ r.jobs) : ∃ l, r.latest = some l := by
  have hne : r.jobs ≠ [] := List.ne_nil_of_mem h
  exact ⟨r.jobs.getLast hne, List.getLast?_eq_some_getLast hne⟩

theorem mem_of_latest {l : Job β} (h : r.latest = some l) : l ∈ r.jobs :=
  List.mem_of_getLast? h

theorem latest_claimed (n : Nat) (b : β) :
    (r.claimed n b).latest = some { claim := n, body := b } := by
  simp [Row.claimed, Row.latest]

/-- A deployment leaves every job but its own as it was. -/
theorem latest_deployed {j l : Job β} {ok : Bool} (h : (r.deployed j ok).latest = some l) :
    ∃ k, r.latest = some k ∧
      l = if k.claim = j.claim then { k with outcome := some ok } else k := by
  unfold Row.deployed Row.latest update at h
  rw [List.getLast?_map, Option.map_eq_some_iff] at h
  obtain ⟨k, hk, rfl⟩ := h
  exact ⟨k, hk, by simp⟩

theorem Sound.edit (h : Sound r) (b : Option β) {o : Option β} (hu : r.jobs = [] ∨ o = r.object) :
    Sound { r with phase := .pending, body := b, object := o } where
  claims := h.claims
  taken := fun hp => by simp at hp
  done := fun hp => by cases hp
  shown := fun l hl ho => by
    rcases hu with hu | rfl
    · have hmem := mem_of_latest (r := r) hl
      simp [hu] at hmem
    · exact h.shown l hl ho
  built := fun hp => by cases hp

theorem Sound.claim (h : Sound r) {n : Nat} {b : β} (hb : r.body = some b)
    (hn : ∀ j ∈ r.jobs, j.claim ≠ n) : Sound (r.claimed n b) where
  claims := by
    simp only [Row.claimed, List.map_append, List.map_cons, List.map_nil]
    refine List.nodup_append.mpr ⟨h.claims, by simp, ?_⟩
    intro m hm k hk
    obtain ⟨j, hj, rfl⟩ := List.mem_map.mp hm
    rw [List.mem_singleton.mp hk]
    exact hn j hj
  taken := fun _ l hl => by
    rw [latest_claimed] at hl
    cases hl
    exact hb
  done := fun hp => by cases hp
  shown := fun l hl ho => by
    rw [latest_claimed] at hl
    cases hl
    cases ho
  built := fun hp => by cases hp

/-- The job that deploys is the last one, or the last one has not deployed, or both took the
same content. -/
theorem Sound.deploy (h : Sound r) {j : Job β} {ok : Bool} (hj : j ∈ r.jobs)
    (ho : j.outcome = none)
    (ht : ok = true → ∀ l, r.latest = some l → l.outcome = some true → j.body = l.body) :
    Sound (r.deployed j ok) := by
  have hown : ∀ l, r.latest = some l → l.claim = j.claim → l = j := fun l hl hc =>
    eq_of_key (·.claim) h.claims (mem_of_latest hl) hj hc
  have hbody : ∀ l, (r.deployed j ok).latest = some l → ∃ k, r.latest = some k ∧
      l.body = k.body := by
    intro l hl
    obtain ⟨k, hk, rfl⟩ := latest_deployed hl
    refine ⟨k, hk, ?_⟩
    split <;> rfl
  have hdone : r.phase = .built → ∀ l, (r.deployed j ok).latest = some l →
      l.outcome = some true := by
    intro hp l hl
    obtain ⟨k, hk, rfl⟩ := latest_deployed hl
    split
    · rename_i hc
      have hkj := hown k hk hc
      have hkt := h.done hp k hk
      rw [hkj, ho] at hkt
      cases hkt
    · exact h.done hp k hk
  refine ⟨?_, fun hp l hl => ?_, hdone, fun l hl hlt => ?_, fun hp => ?_⟩
  · have hsame : (r.deployed j ok).jobs.map (·.claim) = r.jobs.map (·.claim) := by
      refine map_update ?_ r.jobs
      exact fun _ => rfl
    rw [hsame]
    exact h.claims
  · obtain ⟨k, hk, hb⟩ := hbody l hl
    rw [hb]
    exact h.taken hp k hk
  · obtain ⟨k, hk, rfl⟩ := latest_deployed hl
    by_cases hc : k.claim = j.claim
    · rw [if_pos hc] at hlt ⊢
      cases hlt
      have hkj := hown k hk hc
      simp [Row.deployed, hkj]
    · rw [if_neg hc] at hlt ⊢
      cases ok with
      | false => exact h.shown k hk hlt
      | true => simp [Row.deployed, ht rfl k hk hlt]
  · cases ok with
    | false => exact h.built hp
    | true =>
      obtain ⟨l, hl⟩ := exists_latest hj
      have hbl := h.taken (.inr hp) l hl
      have hjl := ht rfl l hl (h.done hp l hl)
      simp only [Row.deployed, if_true, hjl]
      exact hbl.symm

theorem Sound.report (h : Sound r) {j : Job β} {ok : Bool} (hj : j ∈ r.jobs)
    (ht : ok = true → r.phase = .building → ∀ l, r.latest = some l → l.outcome = some true) :
    Sound (r.reported ok) := by
  unfold Row.reported
  split
  · rename_i hp
    cases ok with
    | false =>
      refine ⟨h.claims, fun hq => ?_, fun hq => ?_, h.shown, fun hq => ?_⟩
      · rcases hq with hq | hq <;> cases hq
      · cases hq
      · cases hq
    | true =>
      obtain ⟨l, hl⟩ := exists_latest hj
      have hdone := ht rfl hp
      refine ⟨h.claims, fun _ => h.taken (.inl hp), fun _ => hdone, h.shown, fun _ => ?_⟩
      exact (h.shown l hl (hdone l hl)).trans (h.taken (.inl hp) l hl).symm
  · exact h

/-- Every move keeps the row sound. -/
theorem Move.sound {r' : Row β} (hm : Move r r') (h : Sound r) : Sound r' := by
  cases hm with
  | idle => exact h
  | edit b o hu => exact h.edit b hu
  | claim hp hb hn => exact h.claim hb hn
  | reset hp => exact h.edit r.body (.inr rfl)
  | deploy ok hj ho ht => exact h.deploy hj ho ht
  | report ok hj ho ht => exact h.report hj ht

end Step

theorem sound_of_unclaimed {r : Row β} (hj : r.jobs = []) (hb : r.phase = .built → r.object = r.body) :
    Sound r := by
  have hl : ∀ l, r.latest ≠ some l := by
    intro l h
    have := mem_of_latest h
    simp [hj] at this
  exact ⟨by simp [hj], fun _ l h => absurd h (hl l), fun _ l h => absurd h (hl l),
    fun l h => absurd h (hl l), hb⟩

end Fencing
