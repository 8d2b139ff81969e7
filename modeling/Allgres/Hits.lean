import Allgres.Scan

/-! The matches of a word by the place where they start. For a word whose first
letter does not come back in it the search loops of `Scan` are read off them. -/

namespace Scan

variable {α : Type*} [DecidableEq α]

/-- The rests behind the matches that start in the first of two texts. -/
def hits (w : List α) : List α → List α → List (List α)
  | [], _ => []
  | c :: s, t => (after w (c :: (s ++ t))).toList ++ hits w s t

theorem hits_append (w s t u : List α) :
    hits w (s ++ t) u = hits w s (t ++ u) ++ hits w t u := by
  induction s with
  | nil => rfl
  | cons c s ih => simp [hits, ih]

theorem hits_of_not_mem {a : α} {w s : List α} (h : a ∉ s) (t : List α) :
    hits (a :: w) s t = [] := by
  induction s with
  | nil => rfl
  | cons c s ih =>
    obtain ⟨hc, hs⟩ := not_or.mp fun hm => h (List.mem_cons.mpr hm)
    simp [hits, after, hc, ih hs]

/-- No match starts in a text if none does at any place of it. -/
theorem hits_eq_nil {w s t : List α} (h : ∀ p q, s = p ++ q → q ≠ [] → after w (q ++ t) = none) :
    hits w s t = [] := by
  induction s with
  | nil => rfl
  | cons c s ih =>
    have hc : after w (c :: (s ++ t)) = none := h [] (c :: s) rfl nofun
    have hs : hits w s t = [] := ih fun p q he hq => h (c :: p) q (by simp [he]) hq
    simp [hits, hc, hs]

theorem isPrefixOf_eq_after (w s : List α) : w.isPrefixOf s = (after w s).isSome := by
  induction w generalizing s with
  | nil => simp [after]
  | cons a w ih =>
    cases s with
    | nil => rfl
    | cons b s =>
      by_cases h : a = b
      · simp [List.isPrefixOf, after, h, ih]
      · simp [List.isPrefixOf, after, h]

theorem after_nil {w : List α} (hw : w ≠ []) : after w [] = none := by
  cases w with
  | nil => exact absurd rfl hw
  | cons a w => rfl

theorem findAfter_eq_head_hits {w : List α} (hw : w ≠ []) (s : List α) :
    findAfter w s = (hits w s []).head? := by
  induction s with
  | nil => exact after_nil hw
  | cons c s ih =>
    cases ha : after w (c :: s) with
    | none => simp [findAfter, hits, ha, ih]
    | some r => simp [findAfter, hits, ha]

theorem findAfter_eq_some {w s r : List α} (h : findAfter w s = some r) : ∃ p, s = p ++ (w ++ r) := by
  induction s with
  | nil =>
    refine ⟨[], ?_⟩
    simpa using after_eq_some (show after w [] = some r from h)
  | cons c s ih =>
    cases ha : after w (c :: s) with
    | some v =>
      obtain rfl : v = r := by simpa [findAfter, ha] using h
      refine ⟨[], ?_⟩
      simpa using after_eq_some ha
    | none =>
      obtain ⟨p, rfl⟩ := ih (by simpa [findAfter, ha] using h)
      exact ⟨c :: p, rfl⟩

theorem occurs_iff {w : List α} (hw : w ≠ []) (s : List α) :
    occurs w s = true ↔ hits w s [] ≠ [] := by
  rw [occurs, findAfter_eq_head_hits hw]
  cases hits w s [] <;> simp

/-- Inside a match no other one starts. -/
theorem hits_match {a : α} {w : List α} (ha : a ∉ w) (r : List α) :
    hits (a :: w) (a :: w ++ r) [] = r :: hits (a :: w) r [] := by
  have hself : after (a :: w) (a :: (w ++ r ++ [])) = some r := by
    rw [List.append_nil]
    exact after_append (a :: w) r
  have hinner : hits (a :: w) (w ++ r) [] = hits (a :: w) r [] := by
    rw [hits_append, hits_of_not_mem ha, List.nil_append]
  rw [List.cons_append, hits, hself, hinner]
  rfl

theorem findAllAux_eq_hits {a : α} {w : List α} (ha : a ∉ w) (n : Nat) (s : List α)
    (hn : s.length < n) : findAllAux (a :: w) n s = hits (a :: w) s [] := by
  induction n generalizing s with
  | zero => omega
  | succ n ih =>
    have hskip : ∀ s, s.length < n + 1 → findAllAux (a :: w) (n + 1) s = hits (a :: w) s [] := by
      intro s hs
      induction s with
      | nil => rfl
      | cons c s ihs =>
        cases hc : after (a :: w) (c :: s) with
        | some r =>
          have hsplit := after_eq_some hc
          have hlen : (c :: s).length = w.length + 1 + r.length := by
            rw [hsplit, List.length_append, List.length_cons]
          rw [findAllAux, findAfter_of_after hc, hsplit, hits_match ha]
          simp only [List.length_cons] at hs hlen
          exact congrArg (r :: ·) (ih r (by omega))
        | none =>
          simp only [List.length_cons] at hs
          have htail : hits (a :: w) (c :: s) [] = hits (a :: w) s [] := by simp [hits, hc]
          rw [htail, ← ihs (by omega), findAllAux, findAllAux, findAfter_cons_of_none hc]
    exact hskip s hn

/-- The loop finds all matches. -/
theorem findAll_eq_hits {a : α} {w : List α} (ha : a ∉ w) (s : List α) :
    findAll (a :: w) s = hits (a :: w) s [] :=
  findAllAux_eq_hits ha _ s (Nat.lt_succ_self _)

/-- A word that ends in a separator, in text whose own separators are escaped:
the only match is at the end, with the separator that follows. -/
theorem hits_escaped (esc : α) {stop : α} {w u : List α} (hne : w ≠ []) (hs : stop ∉ w)
    (he : esc ∉ w) (hu : Escaped esc stop u) (v : List α) :
    hits (w ++ [stop]) u (stop :: v) = if w <:+ u then [v] else [] := by
  induction u with
  | nil => simp [hits, hne]
  | cons c u ih =>
    have hrest := ih hu.tail
    cases ha : after (w ++ [stop]) (c :: (u ++ stop :: v)) with
    | none =>
      have hw : w ≠ c :: u := by
        intro h
        apply after_eq_none ha v
        simp [h]
      simp [hits, ha, hrest, suffix_cons_iff_of_ne hw]
    | some r =>
      obtain ⟨rfl, rfl⟩ := eq_of_after_escaped hne hs he hu ha
      have hlong : ¬ c :: u <:+ u := fun h => absurd h.length_le (by simp)
      rw [if_neg hlong] at hrest
      rw [if_pos (List.suffix_refl _), hits, ha, hrest]
      rfl

/-- Without that separator there is no match. -/
theorem hits_escaped_none (esc : α) {stop : α} {w u v : List α} (hne : w ≠ [])
    (he : esc ∉ w) (hu : Escaped esc stop u) (hv : v.head?.all (fun c => decide (c ∉ w ++ [stop])) = true) :
    hits (w ++ [stop]) u v = [] := by
  apply hits_eq_nil
  intro p q hq hqne
  cases ha : after (w ++ [stop]) (q ++ v) with
  | none => rfl
  | some r =>
    have hx : q ++ v = w ++ (stop :: r) := by simpa using after_eq_some ha
    rcases List.append_eq_append_iff.mp hx with ⟨m, hw, hm⟩ | ⟨m, hw, hm⟩
    · -- the match runs out of the text
      cases v with
      | nil => simp at hm
      | cons d v =>
        have hd : d ∉ w ++ [stop] := by simpa using hv
        cases m with
        | nil =>
          have : d = stop := (List.cons.inj hm).1
          exact absurd (by simp [this]) hd
        | cons e m =>
          have : d = e := (List.cons.inj hm).1
          exact absurd (by simp [hw, this]) hd
    · cases m with
      | nil =>
        cases v with
        | nil => simp at hm
        | cons d v =>
          have hd : d ∉ w ++ [stop] := by simpa using hv
          have : stop = d := (List.cons.inj hm).1
          exact absurd (by simp [this]) hd
      | cons e m =>
        obtain rfl : stop = e := (List.cons.inj hm).1
        have hsplit : u = (p ++ w) ++ stop :: m := by rw [hq, hw]; simp
        rcases hu (p ++ w) m hsplit with hh | hh
        · simp [hne] at hh
        · rw [List.getLast?_append_of_ne_nil _ hne] at hh
          exact absurd (List.mem_of_getLast? hh) he

end Scan
