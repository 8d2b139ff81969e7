import Mathlib.Data.List.Basic
import Mathlib.Data.List.Infix

/-! Searching a list for a fixed word. `findAfter` is the first-match search of
a substring, `findAll` the loop that repeats it behind each match, `inside` the
search for a closing bracket. -/

namespace Scan

variable {α : Type*} [DecidableEq α]

/-- What is left of a list behind a given front part. -/
def after : List α → List α → Option (List α)
  | [], s => some s
  | _ :: _, [] => none
  | a :: w, b :: s => if a = b then after w s else none

/-- The rest of the list behind the first occurrence of a word. -/
def findAfter (w : List α) : List α → Option (List α)
  | [] => after w []
  | b :: s => match after w (b :: s) with
    | some r => some r
    | none => findAfter w s

def findAllAux (w : List α) : Nat → List α → List (List α)
  | 0, _ => []
  | n + 1, s => match findAfter w s with
    | some r => r :: findAllAux w n r
    | none => []

/-- The rests behind all occurrences, each search starting behind the last match. -/
def findAll (w s : List α) : List (List α) :=
  findAllAux w (s.length + 1) s

/-- Whether a word occurs at all. -/
def occurs (w s : List α) : Bool :=
  (findAfter w s).isSome

theorem after_append (w r : List α) : after w (w ++ r) = some r := by
  induction w with
  | nil => rfl
  | cons a w ih => simpa [after] using ih

theorem after_eq_some {w s r : List α} (h : after w s = some r) : s = w ++ r := by
  induction w generalizing s with
  | nil => simpa [after] using h
  | cons a w ih =>
    cases s with
    | nil => simp [after] at h
    | cons b s =>
      simp only [after] at h
      split at h
      · next he => rw [he, List.cons_append, ← ih h]
      · simp at h

theorem after_eq_none {w s : List α} (h : after w s = none) (r : List α) : s ≠ w ++ r := by
  intro he
  rw [he, after_append] at h
  simp at h

theorem findAfter_cons_of_none {w s : List α} {b : α} (h : after w (b :: s) = none) :
    findAfter w (b :: s) = findAfter w s := by
  simp [findAfter, h]

theorem findAfter_of_after {w s r : List α} (h : after w s = some r) :
    findAfter w s = some r := by
  cases s with
  | nil => simpa [findAfter] using h
  | cons b s => simp [findAfter, h]

/-- The match found is the first one: every other occurrence starts no earlier. -/
theorem findAfter_occurrence (w p q : List α) :
    ∃ p' r, findAfter w (p ++ (w ++ q)) = some r ∧ p ++ (w ++ q) = p' ++ (w ++ r) ∧
      p'.length ≤ p.length := by
  induction p with
  | nil => exact ⟨[], q, findAfter_of_after (after_append w q), rfl, le_refl _⟩
  | cons a p ih =>
    cases he : after w (a :: (p ++ (w ++ q))) with
    | some r =>
      refine ⟨[], r, findAfter_of_after he, ?_, Nat.zero_le _⟩
      simpa using after_eq_some he
    | none =>
      obtain ⟨p', r, hf, hs, hl⟩ := ih
      refine ⟨a :: p', r, ?_, ?_, ?_⟩
      · rw [List.cons_append, findAfter_cons_of_none he, hf]
      · simp [hs]
      · simpa using hl

omit [DecidableEq α] in
/-- Occurrences of a word whose first letter does not come back in it cannot overlap. -/
theorem split_later_occurrence {a : α} {w p q p' r : List α} (ha : a ∉ w)
    (he : p ++ (a :: w ++ q) = p' ++ (a :: w ++ r)) (hl : p'.length < p.length) :
    ∃ p'', r = p'' ++ (a :: w ++ q) ∧ p''.length < p.length := by
  obtain ⟨m, rfl, hm⟩ : ∃ m, p = p' ++ m ∧ a :: w ++ r = m ++ (a :: w ++ q) := by
    rcases List.append_eq_append_iff.mp he with ⟨m, hp, hq⟩ | ⟨m, hp, hq⟩
    · have : p'.length = p.length + m.length := by simp [hp]
      omega
    · exact ⟨m, hp, hq⟩
  rcases List.append_eq_append_iff.mp hm with ⟨n, hn, hq⟩ | ⟨n, hn, hq⟩
  · refine ⟨n, hq, ?_⟩
    have : m.length = (a :: w).length + n.length := by rw [hn, List.length_append]
    simp only [List.length_cons] at this
    simp only [List.length_append]
    omega
  · cases n with
    | nil =>
      refine ⟨[], by simpa using hq.symm, ?_⟩
      have : 0 < m.length := by simp only [List.length_append] at hl; omega
      simp only [List.length_nil, List.length_append]
      omega
    | cons b n =>
      have hb : b = a := by
        have := congrArg List.head? hq
        simpa using this.symm
      cases m with
      | nil => simp at hl
      | cons c m =>
        have : a ∈ w := by
          have hw : w = m ++ b :: n := by simpa using (List.cons.inj hn).2
          simp [hw, hb]
        exact absurd this ha

theorem mem_findAllAux {a : α} {w : List α} (ha : a ∉ w) (n : Nat) (p q : List α)
    (hn : p.length < n) : q ∈ findAllAux (a :: w) n (p ++ (a :: w ++ q)) := by
  induction n generalizing p with
  | zero => omega
  | succ n ih =>
    obtain ⟨p', r, hf, hs, hl⟩ := findAfter_occurrence (a :: w) p q
    simp only [findAllAux, hf]
    rcases Nat.lt_or_eq_of_le hl with hlt | heq
    · obtain ⟨p'', hr, hp⟩ := split_later_occurrence ha hs hlt
      rw [hr]
      exact List.mem_cons_of_mem _ (ih p'' (by omega))
    · have hq := List.append_inj_right hs heq.symm
      rw [List.append_cancel_left hq]
      exact List.mem_cons_self

/-- The loop visits every occurrence of such a word. -/
theorem mem_findAll {a : α} {w : List α} (ha : a ∉ w) (p q : List α) :
    q ∈ findAll (a :: w) (p ++ (a :: w ++ q)) := by
  apply mem_findAllAux ha
  simp only [List.length_append]
  omega

/-- Every `stop` but a leading one stands behind the escape letter. -/
def Escaped (esc stop : α) (u : List α) : Prop :=
  ∀ p q, u = p ++ stop :: q → p = [] ∨ p.getLast? = some esc

omit [DecidableEq α] in
theorem Escaped.tail {esc stop a : α} {u : List α} (h : Escaped esc stop (a :: u)) :
    Escaped esc stop u := by
  intro p q hu
  cases p with
  | nil => exact Or.inl rfl
  | cons b p =>
    rcases h (a :: b :: p) q (by simp [hu]) with hp | hp
    · simp at hp
    · exact Or.inr (by simpa using hp)

omit [DecidableEq α] in
theorem Escaped.cons {esc stop a : α} {u : List α} (hu : Escaped esc stop u)
    (ha : u.head? = some stop → a = esc) : Escaped esc stop (a :: u) := by
  intro p q he
  cases p with
  | nil => exact Or.inl rfl
  | cons b p =>
    obtain ⟨rfl, ht⟩ := List.cons.inj he
    right
    cases p with
    | nil => simp [ha (by simp [ht])]
    | cons c p =>
      rcases hu (c :: p) q ht with hp | hp
      · simp at hp
      · simpa using hp

omit [DecidableEq α] in
theorem Escaped.of_not_mem {esc stop : α} {u : List α} (h : stop ∉ u) :
    Escaped esc stop u := by
  intro p q hu
  simp [hu] at h

/-- A word that ends in a separator matches, in text whose own separators are
escaped, only as a whole. -/
theorem eq_of_after_escaped {esc stop : α} {w u v r : List α} (hne : w ≠ []) (hs : stop ∉ w)
    (he : esc ∉ w) (hu : Escaped esc stop u)
    (h : after (w ++ [stop]) (u ++ stop :: v) = some r) : w = u ∧ v = r := by
  have hx : u ++ stop :: v = w ++ (stop :: r) := by simpa using after_eq_some h
  rcases List.append_eq_append_iff.mp hx with ⟨m, hw, hm⟩ | ⟨m, hw, hm⟩
  · cases m with
    | nil => exact ⟨by simpa using hw, by simpa using hm⟩
    | cons d m =>
      obtain rfl : stop = d := (List.cons.inj hm).1
      exact absurd (by simp [hw]) hs
  · cases m with
    | nil => exact ⟨by simpa using hw.symm, by simpa using hm.symm⟩
    | cons d m =>
      obtain rfl : stop = d := (List.cons.inj hm).1
      rcases hu w m hw with hh | hh
      · exact absurd hh hne
      · exact absurd (List.mem_of_getLast? hh) he

omit [DecidableEq α] in
theorem suffix_cons_iff_of_ne {w u : List α} {c : α} (h : w ≠ c :: u) : w <:+ c :: u ↔ w <:+ u := by
  rw [List.suffix_cons_iff]
  exact ⟨fun hs => hs.resolve_left h, Or.inr⟩

/-- The flag says that the last letter was the escape letter. -/
def insideAux (esc op cl : α) : Bool → Nat → List α → List α
  | _, _, [] => []
  | true, d, c :: s => c :: insideAux esc op cl false d s
  | false, d, c :: s =>
    if c = esc then c :: insideAux esc op cl true d s
    else if c = op then c :: insideAux esc op cl false (d + 1) s
    else if c = cl then (if d = 0 then [] else c :: insideAux esc op cl false (d - 1) s)
    else c :: insideAux esc op cl false d s

/-- The text in front of the bracket that closes an opening one just read. -/
def inside (esc op cl : α) (s : List α) : List α :=
  insideAux esc op cl false 0 s

section Neutral

variable {esc op cl : α}

/-- Text the bracket count runs over without a change. -/
def Neutral (esc op cl : α) (t : List α) : Prop :=
  ∀ d s, insideAux esc op cl false d (t ++ s) = t ++ insideAux esc op cl false d s

theorem Neutral.nil : Neutral esc op cl [] :=
  fun _ _ => rfl

theorem Neutral.append {t u : List α} (ht : Neutral esc op cl t) (hu : Neutral esc op cl u) :
    Neutral esc op cl (t ++ u) := by
  intro d s
  rw [List.append_assoc, ht, hu, List.append_assoc]

theorem Neutral.single {c : α} (he : c ≠ esc) (ho : c ≠ op) (hc : c ≠ cl) :
    Neutral esc op cl [c] := by
  intro d s
  simp [insideAux, he, ho, hc]

theorem Neutral.pair (c : α) : Neutral esc op cl [esc, c] := by
  intro d s
  simp [insideAux]

theorem Neutral.of_forall {t : List α} (h : ∀ c ∈ t, c ≠ esc ∧ c ≠ op ∧ c ≠ cl) :
    Neutral esc op cl t := by
  induction t with
  | nil => exact Neutral.nil
  | cons c t ih =>
    obtain ⟨he, ho, hc⟩ := h c List.mem_cons_self
    exact (Neutral.single he ho hc).append (ih fun b hb => h b (List.mem_cons_of_mem _ hb))

theorem Neutral.flatMap {β : Type*} {f : β → List α} {l : List β}
    (h : ∀ b ∈ l, Neutral esc op cl (f b)) : Neutral esc op cl (l.flatMap f) := by
  induction l with
  | nil => exact Neutral.nil
  | cons b l ih =>
    rw [List.flatMap_cons]
    exact (h b List.mem_cons_self).append (ih fun c hc => h c (List.mem_cons_of_mem _ hc))

theorem Neutral.bracket {t : List α} (heo : op ≠ esc) (hec : cl ≠ esc) (hoc : cl ≠ op)
    (ht : Neutral esc op cl t) : Neutral esc op cl (op :: (t ++ [cl])) := by
  intro d s
  have hop : insideAux esc op cl false d (op :: (t ++ ([cl] ++ s))) =
      op :: insideAux esc op cl false (d + 1) (t ++ ([cl] ++ s)) := by
    simp [insideAux, heo]
  have hcl : insideAux esc op cl false (d + 1) ([cl] ++ s) = cl :: insideAux esc op cl false d s := by
    simp [insideAux, hec, hoc]
  calc insideAux esc op cl false d (op :: (t ++ [cl]) ++ s)
      = insideAux esc op cl false d (op :: (t ++ ([cl] ++ s))) := by simp
    _ = op :: (t ++ (cl :: insideAux esc op cl false d s)) := by rw [hop, ht, hcl]
    _ = op :: (t ++ [cl]) ++ insideAux esc op cl false d s := by simp

theorem inside_of_neutral {t : List α} (hec : cl ≠ esc) (hoc : cl ≠ op)
    (ht : Neutral esc op cl t) (s : List α) : inside esc op cl (t ++ cl :: s) = t := by
  rw [inside, ht]
  simp [insideAux, hec, hoc]

end Neutral

end Scan
