import Mathlib.Data.List.Infix
import Mathlib.Tactic.ByCases

/-! Reading a sequence in chunks until what has been read is enough. -/

namespace Chunks

variable {α : Type}

/-- What has been read when it is enough for the first time after a chunk. -/
def stopAt (enough : List α → Bool) : List α → List (List α) → Option (List α)
  | _, [] => none
  | read, c :: cs => if enough (read ++ c) then some (read ++ c) else stopAt enough (read ++ c) cs

variable {enough : List α → Bool} {read d : List α} {cs : List (List α)}

theorem stopAt_some (h : stopAt enough read cs = some d) :
    enough d = true ∧ read <+: d ∧ d <+: read ++ cs.flatten := by
  induction cs generalizing read with
  | nil => simp [stopAt] at h
  | cons c cs ih =>
    rw [stopAt] at h
    split at h
    · rename_i henough
      obtain rfl := Option.some.inj h
      refine ⟨henough, List.prefix_append _ _, ?_⟩
      rw [List.flatten_cons, ← List.append_assoc]
      exact List.prefix_append _ _
    · obtain ⟨henough, hread, hall⟩ := ih h
      refine ⟨henough, (List.prefix_append _ _).trans hread, ?_⟩
      rwa [List.flatten_cons, ← List.append_assoc]

/-- A reader that goes on to the end has not read enough. -/
theorem stopAt_none (hread : enough read = false) (h : stopAt enough read cs = none) :
    enough (read ++ cs.flatten) = false := by
  induction cs generalizing read with
  | nil => simpa using hread
  | cons c cs ih =>
    rw [stopAt] at h
    split at h
    · cases h
    · rename_i hnot
      rw [List.flatten_cons, ← List.append_assoc]
      exact ih (by simpa using hnot) h

/-- Chunks after which nothing can be enough. -/
theorem stopAt_append (cs' : List (List α)) (h : ∀ d, d <+: read ++ cs.flatten → enough d = false) :
    stopAt enough read (cs ++ cs') = stopAt enough (read ++ cs.flatten) cs' := by
  induction cs generalizing read with
  | nil => simp
  | cons c cs ih =>
    have hflatten : read ++ (c :: cs).flatten = read ++ c ++ cs.flatten := by simp
    rw [hflatten] at h ⊢
    have hfirst : enough (read ++ c) = false := h _ (List.prefix_append _ _)
    rw [List.cons_append, stopAt, hfirst]
    exact ih h

/-- One element at a time. -/
def single (l : List α) : List (List α) :=
  l.map fun a => [a]

@[simp] theorem flatten_single (l : List α) : (single l).flatten = l := by
  induction l with
  | nil => rfl
  | cons a l ih => simpa [single] using ih

theorem mem_single {l : List α} {c : List α} (h : c ∈ single l) : c.length = 1 := by
  obtain ⟨a, -, rfl⟩ := List.mem_map.mp h
  rfl

/-- Reading in single elements up to the first point where it is enough, with a last chunk of its own. -/
theorem stopAt_single {l c : List α} {cs : List (List α)} (h : ∀ d, d <+: l → enough d = false)
    (hc : enough (l ++ c) = true) : stopAt enough [] (single l ++ c :: cs) = some (l ++ c) := by
  rw [stopAt_append _ (by simpa using h)]
  simp [stopAt, hc]

end Chunks
