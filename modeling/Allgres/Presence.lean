import Allgres.Runs

/-! Tables over a run: a row is there for as long as no step takes it out. -/

namespace Runs

variable {σ ε α : Type}

theorem along_iff_forall {step : σ → ε → σ} {P : ε → Prop} {s : σ} {es : List ε} :
    Along step (fun _ e => P e) s es ↔ ∀ e ∈ es, P e := by
  induction es generalizing s with
  | nil => simp [Along]
  | cons e es ih => rw [Along, ih, List.forall_mem_cons]

section Table

variable (step : σ → ε → σ) (fresh gone : σ → ε → α → Prop)

/-- No step of a run takes a row out. -/
def Spared (a : α) : σ → List ε → Prop :=
  Along step fun s e => ¬ gone s e a

/-- One of the steps puts a row in, and none of the later ones takes it out. -/
def Arrived (a : α) (s : σ) (es : List ε) : Prop :=
  ∃ before e after, es = before ++ e :: after ∧ fresh (run step s before) e a ∧
    Spared step gone a (run step s (before ++ [e])) after

variable {step fresh gone} {a : α} {s : σ} {e : ε} {es : List ε}

theorem arrived_cons : Arrived step fresh gone a s (e :: es) ↔
    (fresh s e a ∧ Spared step gone a (step s e) es) ∨ Arrived step fresh gone a (step s e) es := by
  constructor
  · rintro ⟨before, e', after, hes, hf, hk⟩
    cases before with
    | nil =>
      obtain ⟨rfl, rfl⟩ := List.cons.inj hes
      exact .inl ⟨hf, hk⟩
    | cons b before =>
      obtain ⟨rfl, rfl⟩ := List.cons.inj hes
      exact .inr ⟨before, e', after, rfl, hf, hk⟩
  · rintro (⟨hf, hk⟩ | ⟨before, e', after, rfl, hf, hk⟩)
    · exact ⟨[], e, es, rfl, hf, hk⟩
    · exact ⟨e :: before, e', after, rfl, hf, hk⟩

/-- What each step does to a table, over a whole run of events of a kind. -/
theorem mem_table_iff (table : σ → List α) (Inv : σ → Prop) (Kind : ε → Prop)
    (hinv : ∀ s e, Kind e → Inv s → Inv (step s e))
    (hstep : ∀ s e a, Kind e → Inv s →
      (a ∈ table (step s e) ↔ (a ∈ table s ∧ ¬ gone s e a) ∨ fresh s e a))
    (hs : Inv s) (es : List ε) (hes : ∀ e ∈ es, Kind e) :
    a ∈ table (run step s es) ↔
      (a ∈ table s ∧ Spared step gone a s es) ∨ Arrived step fresh gone a s es := by
  induction es generalizing s with
  | nil =>
    constructor
    · exact fun h => .inl ⟨h, trivial⟩
    · rintro (h | ⟨before, e, after, hes, -⟩)
      · exact h.1
      · cases before <;> cases hes
  | cons e es ih =>
    have hrun : run step s (e :: es) = run step (step s e) es := rfl
    have hspared : Spared step gone a s (e :: es) ↔
        ¬ gone s e a ∧ Spared step gone a (step s e) es := Iff.rfl
    obtain ⟨he, hes⟩ := List.forall_mem_cons.mp hes
    rw [hrun, ih (hinv s e he hs) hes, hstep s e a he hs, arrived_cons, hspared]
    tauto

end Table

end Runs
