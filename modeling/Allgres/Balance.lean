import Allgres.Runs
import Mathlib.Algebra.Order.Group.Multiset

/-! The books of a run: what its events bring in and take out, and what is held in between. -/

namespace Runs

variable {σ ε α β : Type} {step : σ → ε → σ}

/-- Everything the events of a run yield, in their order. -/
def gathered (step : σ → ε → σ) (f : σ → ε → List α) : σ → List ε → List α
  | _, [] => []
  | s, e :: es => f s e ++ gathered step f (step s e) es

theorem map_gathered (g : α → β) (f : σ → ε → List α) (s : σ) (es : List ε) :
    (gathered step f s es).map g = gathered step (fun s e => (f s e).map g) s es := by
  induction es generalizing s with
  | nil => rfl
  | cons e es ih => rw [gathered, gathered, ← ih, List.map_append]

theorem mem_gathered {f : σ → ε → List α} {s : σ} {es : List ε} {x : α}
    (h : x ∈ gathered step f s es) :
    ∃ before e after, es = before ++ e :: after ∧ x ∈ f (run step s before) e := by
  induction es generalizing s with
  | nil => cases h
  | cons e es ih =>
    rcases List.mem_append.mp h with h | h
    · exact ⟨[], e, es, rfl, h⟩
    · obtain ⟨before, e', after, rfl, he⟩ := ih h
      exact ⟨e :: before, e', after, rfl, he⟩

section Balance

variable {held : σ → Multiset α} {outgo income : σ → ε → List α}

/-- What no step gives out beyond what it holds and takes in, no run does. -/
theorem balance_le
    (hstep : ∀ s e, held (step s e) + (outgo s e : Multiset α) ≤ held s + (income s e : Multiset α))
    (s : σ) (es : List ε) :
    held (run step s es) + (gathered step outgo s es : Multiset α) ≤
      held s + (gathered step income s es : Multiset α) := by
  induction es generalizing s with
  | nil => exact le_rfl
  | cons e es ih =>
    have hrun : run step s (e :: es) = run step (step s e) es := rfl
    have hlater := add_le_add_right (ih (step s e)) (outgo s e : Multiset α)
    have hnow := add_le_add_left (hstep s e) (gathered step income (step s e) es : Multiset α)
    rw [hrun, gathered, gathered, ← Multiset.coe_add, ← Multiset.coe_add]
    calc
      _ = (outgo s e : Multiset α) +
          (held (run step (step s e) es) +
            (gathered step outgo (step s e) es : Multiset α)) := by ac_rfl
      _ ≤ (outgo s e : Multiset α) +
          (held (step s e) + (gathered step income (step s e) es : Multiset α)) := hlater
      _ = held (step s e) + (outgo s e : Multiset α) +
          (gathered step income (step s e) es : Multiset α) := by ac_rfl
      _ ≤ held s + (income s e : Multiset α) + (gathered step income (step s e) es : Multiset α) :=
        hnow
      _ = _ := by ac_rfl

variable (held) in
/-- A run that begins with nothing gives out no more than it takes in. -/
theorem gathered_subperm
    (hstep : ∀ s e, held (step s e) + (outgo s e : Multiset α) ≤ held s + (income s e : Multiset α))
    {s : σ} (h0 : held s = 0) (es : List ε) :
    (gathered step outgo s es).Subperm (gathered step income s es) := by
  rw [← Multiset.coe_le]
  have hle := balance_le hstep s es
  rw [h0, zero_add] at hle
  exact le_trans (Multiset.le_add_left _ _) hle

end Balance

end Runs
