import Allgres.DumpReading
import Mathlib.Algebra.GroupWithZero.Nat

/-! What `quoted_strings` makes of a list of names. A quotation mark in a name is not
escaped, so behind an odd number of them the strings and the blanks between them
change places. -/

namespace Allgres

section Scanning

/-- The strings that end in a text, and the one it leaves open; `none` is outside a string. -/
def scanQuotes : Option Chars → Chars → List Chars × Option Chars
  | acc, [] => ([], acc)
  | none, c :: s => scanQuotes (if c = '"' then some [] else none) s
  | some acc, c :: s =>
    if c = '"' then (acc :: (scanQuotes none s).1, (scanQuotes none s).2) else scanQuotes (some (acc ++ [c])) s

def quoteState : Option Chars → QuoteState
  | none => .outside
  | some acc => .inside acc

theorem quotedStringsAux_outside {c : Char} (hc : c ≠ '"') (t : Chars) :
    quotedStringsAux .outside (tokenEscape c ++ t) = quotedStringsAux .outside t := by
  cases hs : tokenSpecial c with
  | true => simp [tokenEscape, hs, quotedStringsAux, hc]
  | false => simp [tokenEscape, hs, quotedStringsAux, hc]

theorem quotedStringsAux_scan (s t : Chars) : ∀ acc, quotedStringsAux (quoteState acc) (s.flatMap tokenEscape ++ t) =
    (scanQuotes acc s).1 ++ quotedStringsAux (quoteState (scanQuotes acc s).2) t := by
  have hquote : tokenEscape '"' = ['"'] := by decide
  induction s with
  | nil =>
    intro acc
    cases acc <;> rfl
  | cons c s ih =>
    intro acc
    rw [List.flatMap_cons, List.append_assoc]
    cases acc with
    | none =>
      by_cases hc : c = '"'
      · have hin := ih (some [])
        simpa [hc, hquote, quoteState, quotedStringsAux, scanQuotes] using hin
      · have hout := ih none
        rw [scanQuotes, if_neg hc, ← hout]
        exact quotedStringsAux_outside hc _
    | some acc =>
      by_cases hc : c = '"'
      · have hout := ih none
        simp only [quoteState] at hout
        simp [hc, hquote, quoteState, quotedStringsAux, scanQuotes, hout]
      · have hin := ih (some (acc ++ [c]))
        rw [scanQuotes, if_neg hc, ← hin]
        exact quotedStringsAux_escape hc acc _

/-- How many quotation marks there are in some texts. -/
def quotes (ss : List Chars) : Nat :=
  (ss.map (List.count '"')).sum

theorem quotes_append (ss us : List Chars) : quotes (ss ++ us) = quotes ss + quotes us := by
  simp [quotes]

/-- A string that is read has no quotation mark but those it was entered with. -/
theorem quotes_scanQuotes (s : Chars) : ∀ acc,
    quotes ((scanQuotes acc s).1 ++ (scanQuotes acc s).2.toList) ≤ quotes acc.toList := by
  induction s with
  | nil =>
    intro acc
    cases acc <;> exact Nat.le_refl _
  | cons c s ih =>
    intro acc
    cases acc with
    | none =>
      rw [scanQuotes]
      refine (ih _).trans ?_
      split <;> exact Nat.le_refl _
    | some acc =>
      rw [scanQuotes]
      by_cases hc : c = '"'
      · have hout := ih none
        simp only [quotes, Option.toList_none, List.map_nil, List.sum_nil, Nat.le_zero] at hout
        simp [hc, quotes] at hout ⊢
        omega
      · rw [if_neg hc]
        refine (ih _).trans ?_
        simp [quotes, hc]

/-- Every string but an open one has two marks. -/
theorem length_scanQuotes (s : Chars) : ∀ acc,
    2 * (scanQuotes acc s).1.length + (scanQuotes acc s).2.toList.length = acc.toList.length + s.count '"' := by
  induction s with
  | nil =>
    intro acc
    simp [scanQuotes]
  | cons c s ih =>
    intro acc
    by_cases hc : c = '"'
    · cases acc with
      | none =>
        have hin := ih (some [])
        simp [scanQuotes, hc] at hin ⊢
        omega
      | some acc =>
        have hout := ih none
        simp [scanQuotes, hc] at hout ⊢
        omega
    · cases acc with
      | none => simpa [scanQuotes, hc] using ih none
      | some acc => simpa [scanQuotes, hc] using ih (some (acc ++ [c]))

theorem scanQuotes_of_not_mem {s : Chars} (h : '"' ∉ s) : ∀ acc, scanQuotes acc s = ([], acc.map (· ++ s)) := by
  induction s with
  | nil =>
    intro acc
    cases acc <;> simp [scanQuotes]
  | cons c s ih =>
    obtain ⟨hc, hs⟩ := not_or.mp fun hm => h (List.mem_cons.mpr hm)
    intro acc
    cases acc <;> simp [scanQuotes, Ne.symm hc, ih hs]

end Scanning

section Names

/-- Where the scan stands in front of the blank before a name: with the marks paired the
wrong way round it is inside of a string there. -/
def beforeName (crossed : Bool) : QuoteState :=
  if crossed then .inside [] else .outside

/-- The part of a name whose marks count: in front of a leading one there is a backslash. -/
def barePart (crossed : Bool) (s : Chars) : Chars :=
  if crossed then s else s.tail

/-- Whether the marks are paired the wrong way round behind a name. -/
def crossedAfter (crossed : Bool) (s : Chars) : Bool :=
  crossed ^^ (barePart crossed s).count '"' % 2 == 1

/-- The strings that end between the blank before a name and its closing mark. -/
def readStrings (crossed : Bool) (s : Chars) : List Chars :=
  let read := scanQuotes (if crossed then none else some (s.take 1)) (barePart crossed s)
  (if crossed then [[' ']] else []) ++ (read.1 ++ read.2.toList)

def readNames (crossed : Bool) : List Chars → List Chars
  | [] => if crossed then [[]] else []
  | s :: ss => readStrings crossed s ++ readNames (crossedAfter crossed s) ss

theorem isNone_scanQuotes (crossed : Bool) (s : Chars) :
    (scanQuotes (if crossed then none else some (s.take 1)) (barePart crossed s)).2.isNone =
      crossedAfter crossed s := by
  have hlen := length_scanQuotes (barePart crossed s) (if crossed then none else some (s.take 1))
  unfold crossedAfter
  cases crossed with
  | false =>
    simp only [Bool.false_eq_true, if_false, Option.toList_some, List.length_singleton] at hlen ⊢
    cases hr : (scanQuotes (some (s.take 1)) (barePart false s)).2 with
    | none =>
      simp only [hr, Option.toList_none, List.length_nil] at hlen
      have hodd : (barePart false s).count '"' % 2 = 1 := by omega
      simp [hodd]
    | some acc =>
      simp only [hr, Option.toList_some, List.length_singleton] at hlen
      have heven : (barePart false s).count '"' % 2 = 0 := by omega
      simp [heven]
  | true =>
    simp only [if_true, Option.toList_none, List.length_nil] at hlen ⊢
    cases hr : (scanQuotes none (barePart true s)).2 with
    | none =>
      simp only [hr, Option.toList_none, List.length_nil] at hlen
      have heven : (barePart true s).count '"' % 2 = 0 := by omega
      simp [heven]
    | some acc =>
      simp only [hr, Option.toList_some, List.length_singleton] at hlen
      have hodd : (barePart true s).count '"' % 2 = 1 := by omega
      simp [hodd]

/-- The mark behind a name. -/
theorem quotedStringsAux_mark (acc : Option Chars) (t : Chars) : quotedStringsAux (quoteState acc) ('"' :: t) =
    acc.toList ++ quotedStringsAux (beforeName acc.isNone) t := by
  cases acc <;> simp [quoteState, quotedStringsAux, beforeName]

/-- A name in front of which the scan is outside of a string. -/
theorem quotedStringsAux_name (s t : Chars) : quotedStringsAux .outside (outString s ++ t) =
    quotedStringsAux (quoteState (some (s.take 1))) (s.tail.flatMap tokenEscape ++ '"' :: t) := by
  cases s with
  | nil => simp [outString, quotedStringsAux, quoteState]
  | cons c s =>
    obtain ⟨front, he, hf⟩ := outToken_cons c s
    rcases hf with rfl | ⟨rfl, hc, hl⟩
    · simp [outString, he, quotedStringsAux, quoteState]
    · have hne : c ≠ '"' := by
        simp only [leadingSpecial, Bool.or_eq_false_iff, beq_eq_false_iff_ne] at hl
        exact hl.1.1.2
      simp [outString, he, quotedStringsAux, quoteState, hne, (tokenSpecial_eq_false hc).2.1]

/-- One in front of which it is inside: the mark that opens the name closes the blank. -/
theorem quotedStringsAux_blank (s t : Chars) : quotedStringsAux (.inside []) (' ' :: (outString s ++ t)) =
    [' '] :: quotedStringsAux (quoteState none) (s.flatMap tokenEscape ++ '"' :: t) := by
  have hback : ∀ u : Chars, quotedStringsAux .outside ('\\' :: u) = quotedStringsAux .outside u := fun _ => rfl
  have hblank : ∀ u : Chars, quotedStringsAux (.inside []) (' ' :: '"' :: u) =
      [' '] :: quotedStringsAux .outside u := fun _ => rfl
  cases s with
  | nil => simp [outString, quotedStringsAux, quoteState]
  | cons c s =>
    rw [outString, if_neg (List.cons_ne_nil c s), List.cons_append, hblank, outToken,
      if_neg (List.cons_ne_nil c s)]
    simp only [quoteState, List.append_assoc, List.singleton_append]
    split
    · rw [List.singleton_append, hback]
    · rfl

theorem quotedStringsAux_readStrings (crossed : Bool) (s t : Chars) :
    quotedStringsAux (beforeName crossed) (' ' :: (outString s ++ t)) =
      readStrings crossed s ++ quotedStringsAux (beforeName (crossedAfter crossed s)) t := by
  rw [← isNone_scanQuotes, readStrings, List.append_assoc, List.append_assoc, ← quotedStringsAux_mark,
    ← quotedStringsAux_scan]
  cases crossed with
  | false => exact quotedStringsAux_name s t
  | true => exact quotedStringsAux_blank s t

theorem quotedStringsAux_dumpStrings (ss : List Chars) : ∀ crossed,
    quotedStringsAux (beforeName crossed) (dumpStrings [' '] ss) = readNames crossed ss := by
  induction ss with
  | nil =>
    intro crossed
    cases crossed <;> rfl
  | cons s ss ih =>
    intro crossed
    rw [dumpStrings, List.append_assoc, List.singleton_append, quotedStringsAux_readStrings, ih, readNames]

/-- The names of a list are read in turn, from a scan that stands outside of a string. -/
theorem quotedStrings_eq_readNames (ss : List Chars) : quotedStrings (dumpStrings [] ss) = readNames false ss := by
  rw [← quotedStringsAux_dumpStrings]
  cases ss <;> rfl

end Names

section Kept

theorem take_append_tail (s : Chars) : s.take 1 ++ s.tail = s := by
  cases s <;> rfl

theorem readStrings_quiet {crossed : Bool} {s : Chars} (h : '"' ∉ barePart crossed s) :
    readStrings crossed s = [if crossed then [' '] else s] ∧ crossedAfter crossed s = crossed := by
  have hcount : (barePart crossed s).count '"' = 0 := List.count_eq_zero.mpr h
  refine ⟨?_, by simp [crossedAfter, hcount]⟩
  rw [readStrings, scanQuotes_of_not_mem h]
  cases crossed with
  | false => simp [barePart, take_append_tail]
  | true => rfl

theorem readStrings_noisy {crossed : Bool} {s : Chars} (h : '"' ∈ barePart crossed s) :
    quotes (readStrings crossed s) < s.count '"' := by
  have hin := quotes_scanQuotes (barePart crossed s) (if crossed then none else some (s.take 1))
  have hpos : 0 < (barePart crossed s).count '"' := List.count_pos_iff.mpr h
  rw [readStrings, quotes_append]
  cases crossed with
  | false =>
    have hsplit : s.count '"' = (s.take 1).count '"' + (barePart false s).count '"' := by
      rw [← List.count_append]
      exact congrArg (List.count '"') (take_append_tail s).symm
    have hstart : quotes (some (s.take 1)).toList = (s.take 1).count '"' := by simp [quotes]
    have hnone : quotes [] = 0 := rfl
    simp only [Bool.false_eq_true, if_false, hstart, hnone] at hin ⊢
    omega
  | true =>
    have hblank : quotes [[' ']] = 0 := rfl
    have hnone : quotes none.toList = 0 := rfl
    have hall : barePart true s = s := rfl
    simp only [if_true, hblank, hnone, hall] at hin hpos ⊢
    omega

theorem length_readStrings (crossed : Bool) (s : Chars) :
    2 * (readStrings crossed s).length + (crossedAfter crossed s).toNat =
      (barePart crossed s).count '"' + 2 + crossed.toNat := by
  have hlen := length_scanQuotes (barePart crossed s) (if crossed then none else some (s.take 1))
  have hopen : ∀ acc : Option Chars, acc.toList.length + acc.isNone.toNat = 1 := by
    intro acc
    cases acc <;> rfl
  have hend := hopen (scanQuotes (if crossed then none else some (s.take 1)) (barePart crossed s)).2
  rw [isNone_scanQuotes] at hend
  rw [readStrings, List.length_append, List.length_append]
  cases crossed with
  | false =>
    simp only [Bool.false_eq_true, if_false, Option.toList_some, List.length_singleton, List.length_nil,
      Bool.toNat_false] at hlen hend ⊢
    omega
  | true =>
    simp only [if_true, Option.toList_none, List.length_singleton, List.length_nil, Bool.toNat_true] at hlen hend ⊢
    omega

theorem length_le_readNames (ss : List Chars) : ∀ crossed, ss.length ≤ (readNames crossed ss).length := by
  induction ss with
  | nil => exact fun _ => Nat.zero_le _
  | cons s ss ih =>
    intro crossed
    have hrest := ih (crossedAfter crossed s)
    have hlen := length_readStrings crossed s
    have hbit := Bool.toNat_le (crossedAfter crossed s)
    rw [readNames, List.length_append, List.length_cons]
    omega

/-- The quotation marks of a name and its schema. -/
def marks (r : ReadName) : Nat :=
  quotes (r.schema.toList ++ [r.name])

theorem lastNames_append (us : List Chars) {ss : List Chars} (h : 2 ≤ ss.length) :
    lastNames (us ++ ss) = lastNames ss := by
  cases ss using List.reverseRecOn with
  | nil => simp at h
  | append_singleton ss s =>
    cases ss using List.reverseRecOn with
    | nil => simp at h
    | append_singleton ss u => simp [lastNames]

theorem lastNames_isSome {ss : List Chars} (h : ss ≠ []) : ∃ r, lastNames ss = some r ∧ marks r ≤ quotes ss := by
  cases ss using List.reverseRecOn with
  | nil => exact absurd rfl h
  | append_singleton ss s =>
    cases ss using List.reverseRecOn with
    | nil => exact ⟨⟨none, s⟩, rfl, Nat.le_refl _⟩
    | append_singleton ss u =>
      refine ⟨⟨some u, s⟩, by simp [lastNames], ?_⟩
      simp [marks, quotes]

/-- Whether the last two names of a list are read as they are. -/
def NamesKept : Bool → List Chars → Prop
  | _, [] => True
  | _, [s] => '"' ∉ s.tail
  | crossed, [u, s] => if crossed then u = [' '] ∧ s = [] else '"' ∉ u.tail ∧ '"' ∉ s.tail
  | crossed, s :: t :: u :: ss => NamesKept (crossedAfter crossed s) (t :: u :: ss)

/-- How far a name is from the one that is read where the marks are crossed. -/
def unlike (r : ReadName) : Nat :=
  r.name.length + if r.schema = some [' '] then 0 else 1

/-- A name that is read has fewer marks, or is the blank with nothing behind it. -/
def Fewer (r q : ReadName) : Prop :=
  marks r < marks q ∨ marks r = marks q ∧ unlike r < unlike q

theorem readNames_single_kept {s : Chars} (h : '"' ∉ s.tail) : readNames false [s] = [s] := by
  have hquiet : '"' ∉ barePart false s := h
  obtain ⟨hread, hcross⟩ := readStrings_quiet hquiet
  simp [readNames, hread, hcross]

theorem readNames_pair_kept {crossed : Bool} {u s : Chars} (h : NamesKept crossed [u, s]) :
    lastNames (readNames crossed [u, s]) = lastNames [u, s] := by
  cases crossed with
  | false =>
    obtain ⟨hu, hs⟩ : '"' ∉ u.tail ∧ '"' ∉ s.tail := h
    have hquiet : '"' ∉ barePart false u := hu
    obtain ⟨hread, hcross⟩ := readStrings_quiet hquiet
    rw [readNames, hread, hcross, readNames_single_kept hs]
    rfl
  | true =>
    obtain ⟨rfl, rfl⟩ : u = [' '] ∧ s = [] := h
    rfl

/-- A mark in the last name. -/
theorem lastNames_noisy {crossed : Bool} {s : Chars} (h : '"' ∈ barePart crossed s) (us : List Chars) :
    ∃ r, lastNames (us ++ readNames crossed [s]) = some r ∧ marks r < s.count '"' := by
  have hlen := length_readStrings crossed s
  have hpos : 0 < (barePart crossed s).count '"' := List.count_pos_iff.mpr h
  have hquotes := readStrings_noisy h
  have hread : 2 ≤ (readNames crossed [s]).length ∧ quotes (readNames crossed [s]) < s.count '"' := by
    rw [readNames, readNames]
    cases hc : crossedAfter crossed s with
    | false =>
      simp only [hc, Bool.toNat_false, Bool.false_eq_true, if_false, List.append_nil] at hlen ⊢
      exact ⟨by omega, hquotes⟩
    | true =>
      have hnone : quotes [[]] = 0 := rfl
      simp only [hc, Bool.toNat_true, if_true, List.length_append, List.length_singleton, quotes_append,
        hnone] at hlen ⊢
      exact ⟨by omega, hquotes⟩
  have hne : readNames crossed [s] ≠ [] := by
    intro he
    rw [he] at hread
    exact absurd hread.1 (by decide)
  obtain ⟨r, hr, hle⟩ := lastNames_isSome hne
  exact ⟨r, (lastNames_append us hread.1).trans hr, Nat.lt_of_le_of_lt hle hread.2⟩

theorem readNames_pair_not_kept {crossed : Bool} {u s : Chars} (h : ¬ NamesKept crossed [u, s]) :
    ∃ r, lastNames (readNames crossed [u, s]) = some r ∧ Fewer r ⟨some u, s⟩ := by
  have htotal : marks ⟨some u, s⟩ = u.count '"' + s.count '"' := by simp [marks, quotes]
  rw [readNames]
  by_cases hs : '"' ∈ barePart (crossedAfter crossed u) s
  · obtain ⟨r, hr, hlt⟩ := lastNames_noisy hs (readStrings crossed u)
    exact ⟨r, hr, Or.inl (by omega)⟩
  · cases hc : crossedAfter crossed u with
    | false =>
      rw [hc] at hs
      have hnoisy : '"' ∈ barePart crossed u := by
        by_contra hu
        obtain rfl : false = crossed := hc.symm.trans (readStrings_quiet hu).2
        exact h ⟨hu, hs⟩
      have hne : readStrings crossed u ++ [s] ≠ [] := List.append_ne_nil_of_right_ne_nil _ (List.cons_ne_nil s [])
      obtain ⟨r, hr, hle⟩ := lastNames_isSome hne
      have hless := readStrings_noisy hnoisy
      have hlast : quotes [s] = s.count '"' := by simp [quotes]
      rw [quotes_append, hlast] at hle
      rw [readNames_single_kept hs]
      exact ⟨r, hr, Or.inl (by omega)⟩
    | true =>
      -- the blank between the names is read, and nothing behind the last mark
      rw [hc] at hs
      obtain ⟨hread, hcross⟩ := readStrings_quiet hs
      have hend : readNames true [s] = [[' '], []] := by
        rw [readNames, hread, hcross]
        rfl
      have hpair : lastNames (readStrings crossed u ++ [[' '], []]) = some ⟨some [' '], []⟩ :=
        lastNames_append _ (show 2 ≤ [[' '], []].length from Nat.le_refl 2)
      rw [hend]
      refine ⟨_, hpair, ?_⟩
      have hmarks : marks ⟨some [' '], []⟩ = 0 := rfl
      by_cases hu : '"' ∈ u
      · have hpos : 0 < u.count '"' := List.count_pos_iff.mpr hu
        exact Or.inl (by omega)
      · have hquiet : '"' ∉ barePart crossed u := by
          cases crossed with
          | false => exact fun hm => hu (List.mem_of_mem_tail hm)
          | true => exact hu
        obtain rfl : true = crossed := hc.symm.trans (readStrings_quiet hquiet).2
        have hnone : u.count '"' = 0 := List.count_eq_zero.mpr hu
        have hnone' : s.count '"' = 0 := List.count_eq_zero.mpr hs
        refine Or.inr ⟨by omega, ?_⟩
        have hzero : unlike ⟨some [' '], []⟩ = 0 := rfl
        by_contra hlt
        have hsame : unlike ⟨some u, s⟩ = 0 := by omega
        refine h ?_
        simp only [unlike, Nat.add_eq_zero_iff, List.length_eq_zero_iff, Option.some.injEq] at hsame
        refine ⟨?_, hsame.1⟩
        by_contra hne
        simp [hne] at hsame

theorem readNames_single_not_kept {s : Chars} (h : '"' ∈ s.tail) :
    ∃ r, lastNames (readNames false [s]) = some r ∧ Fewer r ⟨none, s⟩ := by
  have hnoisy : '"' ∈ barePart false s := h
  obtain ⟨r, hr, hlt⟩ := lastNames_noisy hnoisy []
  exact ⟨r, hr, Or.inl (by simpa [marks, quotes] using hlt)⟩

/-- From the second but last name on the names in front do not count. -/
theorem lastNames_readNames_cons (crossed : Bool) (s t u : Chars) (ss : List Chars) :
    lastNames (readNames crossed (s :: t :: u :: ss)) =
      lastNames (readNames (crossedAfter crossed s) (t :: u :: ss)) := by
  have hlen := length_le_readNames (t :: u :: ss) (crossedAfter crossed s)
  simp only [List.length_cons] at hlen
  rw [readNames]
  exact lastNames_append _ (by omega)

theorem lastNames_cons (s t u : Chars) (ss : List Chars) :
    lastNames (s :: t :: u :: ss) = lastNames (t :: u :: ss) :=
  lastNames_append [s] (by simp)

theorem readNames_kept : ∀ (ss : List Chars) (crossed : Bool), (ss.length < 2 → crossed = false) →
    NamesKept crossed ss → lastNames (readNames crossed ss) = lastNames ss
  | [], crossed, hc, _ => by
    obtain rfl := hc (by decide)
    rfl
  | [s], crossed, hc, h => by
    obtain rfl := hc (Nat.lt_succ_self 1)
    rw [readNames_single_kept h]
  | [_, _], _, _, h => readNames_pair_kept h
  | s :: t :: u :: ss, crossed, _, h => by
    have hrest := readNames_kept (t :: u :: ss) (crossedAfter crossed s) (fun hl => absurd hl (by simp)) h
    rw [lastNames_readNames_cons, hrest, lastNames_cons]

theorem readNames_not_kept : ∀ (ss : List Chars) (crossed : Bool), (ss.length < 2 → crossed = false) →
    ¬ NamesKept crossed ss → ∃ r q, lastNames (readNames crossed ss) = some r ∧ lastNames ss = some q ∧ Fewer r q
  | [], _, _, h => absurd trivial h
  | [s], crossed, hc, h => by
    obtain rfl := hc (Nat.lt_succ_self 1)
    obtain ⟨r, hr, hf⟩ := readNames_single_not_kept (not_not.mp h)
    exact ⟨r, _, hr, rfl, hf⟩
  | [u, s], crossed, _, h => by
    obtain ⟨r, hr, hf⟩ := readNames_pair_not_kept h
    exact ⟨r, _, hr, rfl, hf⟩
  | s :: t :: u :: ss, crossed, _, h => by
    obtain ⟨r, q, hr, hq, hf⟩ :=
      readNames_not_kept (t :: u :: ss) (crossedAfter crossed s) (fun hl => absurd hl (by simp)) h
    exact ⟨r, q, (lastNames_readNames_cons crossed s t u ss).trans hr, (lastNames_cons s t u ss).trans hq, hf⟩

end Kept

end Allgres
