import Mathlib.Data.List.Count
import Mathlib.Data.List.Induction
import Mathlib.Tactic.ByCases

/-! Limiting by a sliding window, with the whole history at hand: a request is accepted when fewer
than `limit` requests of its key have been accepted in the window that ends with it. -/

namespace SlidingWindow

variable {κ : Type} [DecidableEq κ]

/-- How many requests of a key the window that ends at `now` holds. -/
def held (window : Nat) (past : List (κ × Nat)) (k : κ) (now : Nat) : Nat :=
  past.countP fun r => r.1 = k ∧ now - r.2 < window

/-- How many requests of a key fall in the window that begins at `start`. -/
def within (window : Nat) (past : List (κ × Nat)) (k : κ) (start : Nat) : Nat :=
  past.countP fun r => r.1 = k ∧ start ≤ r.2 ∧ r.2 < start + window

def admits (window limit : Nat) (past : List (κ × Nat)) (r : κ × Nat) : Bool :=
  held window past r.1 r.2 < limit

def grant (window limit : Nat) (past : List (κ × Nat)) (r : κ × Nat) : List (κ × Nat) :=
  if admits window limit past r then past ++ [r] else past

/-- The requests of a sequence that are accepted. -/
def accepted (window limit : Nat) (rs : List (κ × Nat)) : List (κ × Nat) :=
  rs.foldl (grant window limit) []

variable {window limit : Nat}

theorem accepted_snoc (rs : List (κ × Nat)) (r : κ × Nat) :
    accepted window limit (rs ++ [r]) = grant window limit (accepted window limit rs) r := by
  simp [accepted, List.foldl_append]

/-- What a window holds that is not over at `now`. -/
theorem within_le_held (past : List (κ × Nat)) (k : κ) {start now : Nat}
    (hn : now < start + window) : within window past k start ≤ held window past k now := by
  apply List.countP_mono_left
  intro r _ hr
  simp only [decide_eq_true_eq] at hr ⊢
  refine ⟨hr.1, ?_⟩
  omega

/-- No window holds more than `limit` accepted requests of a key. -/
theorem within_accepted_le (rs : List (κ × Nat)) (k : κ) (start : Nat) :
    within window (accepted window limit rs) k start ≤ limit := by
  induction rs using List.reverseRecOn with
  | nil => simp [accepted, within]
  | append_singleton rs r ih =>
    rw [accepted_snoc]
    unfold grant
    split
    · rename_i hroom
      have hcount : within window (accepted window limit rs ++ [r]) k start =
          within window (accepted window limit rs) k start +
            if r.1 = k ∧ start ≤ r.2 ∧ r.2 < start + window then 1 else 0 := by
        simp [within, List.countP_append, List.countP_cons]
      rw [hcount]
      by_cases hin : r.1 = k ∧ start ≤ r.2 ∧ r.2 < start + window
      · obtain ⟨rfl, hs, hn⟩ := hin
        have hle := within_le_held (accepted window limit rs) r.1 hn
        simp only [admits, decide_eq_true_eq] at hroom
        simp only [hs, hn, and_self, if_true]
        omega
      · simpa only [hin, if_false, Nat.add_zero] using ih
    · exact ih

theorem held_filter (past : List (κ × Nat)) (k : κ) (now : Nat) :
    held window (past.filter (·.1 = k)) k now = held window past k now := by
  unfold held
  rw [List.countP_filter]
  apply List.countP_congr
  intro r _
  simp only [decide_eq_true_eq, Bool.and_eq_true]
  tauto

/-- The requests of the other keys do not matter. -/
theorem accepted_filter (rs : List (κ × Nat)) (k : κ) :
    accepted window limit (rs.filter (·.1 = k)) = (accepted window limit rs).filter (·.1 = k) := by
  induction rs using List.reverseRecOn with
  | nil => rfl
  | append_singleton rs r ih =>
    rw [List.filter_append, accepted_snoc]
    by_cases hk : r.1 = k
    · subst hk
      rw [List.filter_cons_of_pos (by simp), List.filter_nil, accepted_snoc, ih]
      simp only [grant, admits, held_filter]
      by_cases hroom : held window (accepted window limit rs) r.1 r.2 < limit <;>
        simp [hroom, List.filter_append]
    · rw [List.filter_cons_of_neg (by simpa using hk), List.filter_nil, List.append_nil, ih]
      unfold grant
      split
      · simp [List.filter_append, hk]
      · rfl

end SlidingWindow
