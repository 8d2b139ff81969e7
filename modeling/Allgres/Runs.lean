import Mathlib.Data.List.Basic
import Mathlib.Logic.Relation

/-! Runs of a machine: the states a list of events leads through, a condition on
every step of a run, and paths of guarded moves between two states. -/

namespace Runs

variable {σ ε : Type} {step : σ → ε → σ}

def run (step : σ → ε → σ) (s : σ) (es : List ε) : σ :=
  es.foldl step s

/-- Every event of a run meets a condition in the state it finds. -/
def Along (step : σ → ε → σ) (P : σ → ε → Prop) : σ → List ε → Prop
  | _, [] => True
  | s, e :: es => P s e ∧ Along step P (step s e) es

theorem run_append (s : σ) (es fs : List ε) : run step s (es ++ fs) = run step (run step s es) fs :=
  List.foldl_append

theorem run_snoc (s : σ) (es : List ε) (e : ε) :
    run step s (es ++ [e]) = step (run step s es) e :=
  run_append s es [e]

theorem along_append {P : σ → ε → Prop} {s : σ} {es fs : List ε} :
    Along step P s (es ++ fs) ↔ Along step P s es ∧ Along step P (run step s es) fs := by
  induction es generalizing s with
  | nil => simp [Along, run]
  | cons e es ih =>
    have hrun : run step s (e :: es) = run step (step s e) es := rfl
    rw [List.cons_append, Along, Along, ih, hrun, and_assoc]

/-- What every step of a condition preserves holds at the end of a run of that condition. -/
theorem invariant {P : σ → ε → Prop} {Inv : σ → Prop}
    (hstep : ∀ s e, Inv s → P s e → Inv (step s e)) {s : σ} {es : List ε} (hs : Inv s)
    (hP : Along step P s es) : Inv (run step s es) := by
  induction es generalizing s with
  | nil => exact hs
  | cons e es ih =>
    obtain ⟨he, hes⟩ := hP
    exact ih (hstep s e hs he) hes

theorem Along.mono {P Q : σ → ε → Prop} {s : σ} {es : List ε} (h : ∀ s e, P s e → Q s e)
    (hP : Along step P s es) : Along step Q s es := by
  induction es generalizing s with
  | nil => trivial
  | cons e es ih => exact ⟨h s e hP.1, ih hP.2⟩

instance decidableAlong (step : σ → ε → σ) (P : σ → ε → Prop) [∀ s e, Decidable (P s e)] :
    (s : σ) → (es : List ε) → Decidable (Along step P s es)
  | _, [] => .isTrue trivial
  | s, e :: es =>
    have := decidableAlong step P (step s e) es
    inferInstanceAs (Decidable (P s e ∧ Along step P (step s e) es))

theorem along_true (s : σ) (es : List ε) : Along step (fun _ _ => True) s es := by
  induction es generalizing s with
  | nil => trivial
  | cons e es ih => exact ⟨trivial, ih _⟩

section Moves

variable {α Λ : Type} {Move : Λ → α → α → Prop} {G : Λ → α → Prop}

/-- A move whose label is permitted in the state it leaves. -/
def Guarded (Move : Λ → α → α → Prop) (G : Λ → α → Prop) (a b : α) : Prop :=
  ∃ l, G l a ∧ Move l a b

def Moves (Move : Λ → α → α → Prop) (G : Λ → α → Prop) : α → α → Prop :=
  Relation.ReflTransGen (Guarded Move G)

theorem Moves.one {a b : α} {l : Λ} (hG : G l a) (h : Move l a b) : Moves Move G a b :=
  .single ⟨l, hG, h⟩

theorem Moves.invariant {Inv : α → Prop} (hmove : ∀ l a b, Inv a → G l a → Move l a b → Inv b)
    {a b : α} (h : Moves Move G a b) (ha : Inv a) : Inv b := by
  induction h with
  | refl => exact ha
  | tail _ hm ih =>
    obtain ⟨l, hG, hm⟩ := hm
    exact hmove l _ _ ih hG hm

/-- A preorder that holds of every guarded move holds of every path. -/
theorem Moves.lift {R : α → α → Prop} (hrefl : ∀ a, R a a)
    (htrans : ∀ a b c, R a b → R b c → R a c) (hmove : ∀ l a b, G l a → Move l a b → R a b)
    {a b : α} (h : Moves Move G a b) : R a b := by
  induction h with
  | refl => exact hrefl a
  | tail _ hm ih =>
    obtain ⟨l, hG, hm⟩ := hm
    exact htrans _ _ _ ih (hmove l _ _ hG hm)

theorem Moves.mono {H : Λ → α → Prop} (hGH : ∀ l a, G l a → H l a) {a b : α}
    (h : Moves Move G a b) : Moves Move H a b := by
  induction h with
  | refl => exact .refl
  | tail _ hm ih =>
    obtain ⟨l, hG, hm⟩ := hm
    exact ih.tail ⟨l, hGH l _ hG, hm⟩

end Moves

end Runs
