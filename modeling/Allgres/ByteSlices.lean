import Allgres.Bytes
import Allgres.Hits

/-! Slices of a text by byte positions. A slice that begins or ends inside a
character, or behind the text, is a panic. -/

namespace Bytes

open Scan

inductive Panic where
  | boundary
  | expect
  deriving DecidableEq

/-- What a program answers unless it panics. -/
abbrev Checked := Except Panic

/-- `str::is_char_boundary`. -/
def isCharBoundary (s : List Byte) (i : Nat) : Bool :=
  if i = 0 then true
  else match s[i]? with
    | none => i == s.length
    | some b => b.toNat < 128 || 192 ≤ b.toNat

/-- `&s[i..]` -/
def sliceFrom (s : List Byte) (i : Nat) : Checked (List Byte) :=
  if isCharBoundary s i then .ok (s.drop i) else .error .boundary

/-- `&s[..i]` -/
def sliceTo (s : List Byte) (i : Nat) : Checked (List Byte) :=
  if isCharBoundary s i then .ok (s.take i) else .error .boundary

/-- `s.chars()`, where `s` is valid UTF-8. -/
def chars (s : List Byte) : List Char :=
  lossy none s

/-- `s[i..].chars().next().expect(..)` -/
def charAt (s : List Byte) (i : Nat) : Checked Char := do
  match chars (← sliceFrom s i) with
  | [] => .error .expect
  | c :: _ => return c

/-- `b as char` -/
def asChar (b : Byte) : Char :=
  Char.ofNat b.toNat

/-- `s.find(w)`, the position of the first match. -/
def find (w : List Byte) : List Byte → Option Nat
  | [] => if w = [] then some 0 else none
  | b :: s => if w.isPrefixOf (b :: s) then some 0 else (find w s).map (· + 1)

def utf8 (t : List Char) : List Byte :=
  t.flatMap String.utf8EncodeChar

theorem utf8_nil : utf8 [] = [] :=
  rfl

theorem utf8_cons (c : Char) (t : List Char) : utf8 (c :: t) = String.utf8EncodeChar c ++ utf8 t :=
  List.flatMap_cons

theorem utf8_append (s t : List Char) : utf8 (s ++ t) = utf8 s ++ utf8 t :=
  List.flatMap_append

theorem chars_utf8 (t : List Char) : chars (utf8 t) = t := by
  induction t with
  | nil => rfl
  | cons c t ih => exact (lossy_encode c (utf8 t)).trans (congrArg (c :: ·) ih)

/-- A character that is one byte. -/
abbrev Ascii (c : Char) : Prop :=
  c.toNat < 128

def ofAscii (c : Char) : Byte :=
  UInt8.ofNat c.toNat

theorem toNat_ofAscii {c : Char} (h : Ascii c) : (ofAscii c).toNat = c.toNat :=
  toNat_small (by omega)

theorem asChar_ofAscii {c : Char} (h : Ascii c) : asChar (ofAscii c) = c := by
  rw [asChar, toNat_ofAscii h]
  exact Char.ofNat_toNat c

theorem encode_ascii {c : Char} (h : Ascii c) : String.utf8EncodeChar c = [ofAscii c] := by
  have hle : c.val.toNat ≤ 127 := by
    have : c.val.toNat = c.toNat := rfl
    omega
  simp only [String.utf8EncodeChar, hle, if_true]
  rfl

/-- The bytes of any other character: the first one starts a sequence, and none is ASCII. -/
theorem encode_wide {c : Char} (h : ¬ Ascii c) :
    ∃ b bs, String.utf8EncodeChar c = b :: bs ∧ 192 ≤ b.toNat ∧ ∀ d ∈ b :: bs, 128 ≤ d.toNat := by
  have hvalid : c.toNat < 0xD800 ∨ (0xDFFF < c.toNat ∧ c.toNat < 0x110000) := c.valid
  have hval : c.val.toNat = c.toNat := rfl
  have hnot : ¬ c.val.toNat ≤ 127 := by omega
  rw [String.utf8EncodeChar]
  simp only [hnot, if_false]
  have hsmall : ∀ n, n < 256 → (UInt8.ofNat n).toNat = n := fun n hn => toNat_small hn
  split_ifs with h2 h3
  · refine ⟨_, _, rfl, ?_, ?_⟩
    · rw [hsmall _ (by omega)]
      omega
    · simp only [List.mem_cons, List.not_mem_nil, or_false]
      rintro d (rfl | rfl) <;> rw [hsmall _ (by omega)] <;> omega
  · refine ⟨_, _, rfl, ?_, ?_⟩
    · rw [hsmall _ (by omega)]
      omega
    · simp only [List.mem_cons, List.not_mem_nil, or_false]
      rintro d (rfl | rfl | rfl) <;> rw [hsmall _ (by omega)] <;> omega
  · refine ⟨_, _, rfl, ?_, ?_⟩
    · rw [hsmall _ (by omega)]
      omega
    · simp only [List.mem_cons, List.not_mem_nil, or_false]
      rintro d (rfl | rfl | rfl | rfl) <;> rw [hsmall _ (by omega)] <;> omega

theorem ofAscii_inj {c d : Char} (hc : Ascii c) (hd : Ascii d) : ofAscii c = ofAscii d ↔ c = d := by
  constructor
  · intro h
    rw [← asChar_ofAscii hc, ← asChar_ofAscii hd, h]
  · intro h
    rw [h]

/-- The words a program searches for. -/
abbrev AsciiWord (w : List Char) : Prop :=
  ∀ c ∈ w, Ascii c

theorem asciiWord_of_all {w : List Char} (h : w.all (fun c => decide (Ascii c)) = true) : AsciiWord w := by
  intro c hc
  simpa using List.all_eq_true.mp h c hc

/-- A word that a search can go on behind. -/
structure SearchWord where
  chars : List Char
  nonempty : chars ≠ []
  ascii : AsciiWord chars

theorem utf8_ascii {w : List Char} (h : AsciiWord w) : utf8 w = w.map ofAscii := by
  induction w with
  | nil => rfl
  | cons c w ih =>
    have hw := ih fun d hd => h d (List.mem_cons_of_mem _ hd)
    rw [utf8_cons, encode_ascii (h c List.mem_cons_self), hw]
    rfl

theorem SearchWord.length_pos (w : SearchWord) : 0 < (utf8 w.chars).length := by
  rw [utf8_ascii w.ascii, List.length_map]
  exact List.length_pos_iff.mpr w.nonempty

theorem le_length_of_sliceFrom {s r : List Byte} {i : Nat} (h : sliceFrom s i = .ok r) : i ≤ s.length := by
  by_contra hlt
  have hget : s[i]? = none := List.getElem?_eq_none (by omega)
  have hbound : isCharBoundary s i = false := by
    simp only [isCharBoundary, hget]
    have hne : (i == s.length) = false := by simp; omega
    simp [hne]
    omega
  simp [sliceFrom, hbound] at h

/-- A stretch of bytes that belong to longer characters. -/
def WideBytes (s : List Byte) (i n : Nat) : Prop :=
  ∀ k < n, ∃ hi : i + k < s.length, 128 ≤ (s[i + k]).toNat

theorem WideBytes.head {s : List Byte} {i n : Nat} (h : WideBytes s i (n + 1)) :
    ∃ hi : i < s.length, 128 ≤ (s[i]).toNat :=
  h 0 (Nat.succ_pos n)

theorem WideBytes.tail {s : List Byte} {i n : Nat} (h : WideBytes s i (n + 1)) : WideBytes s (i + 1) n := by
  intro k hk
  have hstep := h (k + 1) (by omega)
  rwa [← Nat.add_assoc, Nat.add_right_comm] at hstep

/-- A byte position between two parts of a text. -/
structure Split (s : List Byte) (i : Nat) (front rest : List Char) : Prop where
  bytes : s = utf8 (front ++ rest)
  position : i = (utf8 front).length

namespace Split

variable {s : List Byte} {i : Nat} {front rest : List Char} {c : Char}

theorem start (t : List Char) : Split (utf8 t) 0 [] t :=
  ⟨rfl, rfl⟩

theorem drop (h : Split s i front rest) : s.drop i = utf8 rest := by
  rw [h.bytes, h.position, utf8_append, List.drop_left]

theorem take (h : Split s i front rest) : s.take i = utf8 front := by
  rw [h.bytes, h.position, utf8_append, List.take_left]

theorem length (h : Split s i front rest) : s.length = i + (utf8 rest).length := by
  rw [h.bytes, h.position, utf8_append, List.length_append]

theorem getElem? (h : Split s i front rest) (j : Nat) : s[i + j]? = (utf8 rest)[j]? := by
  rw [← h.drop, List.getElem?_drop]

theorem boundary (h : Split s i front rest) : isCharBoundary s i = true := by
  have hi : s[i]? = (utf8 rest)[0]? := h.getElem? 0
  have hlen := h.length
  simp only [isCharBoundary, hi]
  cases rest with
  | nil =>
    have : i = s.length := by simpa [utf8_nil] using hlen.symm
    simp [utf8_nil, this]
  | cons c t =>
    by_cases hc : Ascii c
    · simp [utf8_cons, encode_ascii hc, toNat_ofAscii hc, hc]
    · obtain ⟨b, bs, he, hb, _⟩ := encode_wide hc
      simp [utf8_cons, he, hb]

theorem sliceFrom (h : Split s i front rest) : sliceFrom s i = .ok (utf8 rest) := by
  simp [Bytes.sliceFrom, h.boundary, h.drop]

theorem sliceTo (h : Split s i front rest) : sliceTo s i = .ok (utf8 front) := by
  simp [Bytes.sliceTo, h.boundary, h.take]

theorem charAt (h : Split s i front (c :: rest)) : charAt s i = .ok c := by
  simp only [Bytes.charAt, h.sliceFrom, bind, Except.bind, chars_utf8, pure, Except.pure]

theorem next (h : Split s i front (c :: rest)) : Split s (i + c.utf8Size) (front ++ [c]) rest := by
  constructor
  · rw [h.bytes, List.append_assoc]
    rfl
  · rw [h.position, utf8_append, List.length_append, utf8_cons]
    simp [utf8_nil]

theorem next_ascii (h : Split s i front (c :: rest)) (hc : Ascii c) : Split s (i + 1) (front ++ [c]) rest := by
  have hsize : c.utf8Size = 1 := by
    rw [← String.length_utf8EncodeChar, encode_ascii hc]
    rfl
  simpa [hsize] using h.next

theorem lt_length (h : Split s i front (c :: rest)) : i < s.length := by
  have hpos := c.utf8Size_pos
  have hlen := h.length
  rw [utf8_cons, List.length_append, String.length_utf8EncodeChar] at hlen
  omega

theorem not_lt_length (h : Split s i front []) : ¬ i < s.length := by
  have hlen := h.length
  rw [utf8_nil, List.length_nil] at hlen
  omega

theorem getElem_ascii (h : Split s i front (c :: rest)) (hc : Ascii c) (hi : i < s.length) :
    s[i] = ofAscii c := by
  have hget : s[i]? = some (ofAscii c) := by
    rw [show s[i]? = (utf8 (c :: rest))[0]? from h.getElem? 0, utf8_cons, encode_ascii hc]
    rfl
  exact (List.getElem?_eq_some_iff.mp hget).2

/-- All bytes of a longer character. -/
theorem wideBytes (h : Split s i front (c :: rest)) (hc : ¬ Ascii c) : WideBytes s i c.utf8Size := by
  intro k hk
  obtain ⟨b, bs, he, _, hall⟩ := encode_wide hc
  have hlt : k < (b :: bs).length := by rwa [← he, String.length_utf8EncodeChar]
  have hget : s[i + k]? = some (b :: bs)[k] := by
    rw [h.getElem? k, utf8_cons, he, List.getElem?_append_left hlt, List.getElem?_eq_getElem hlt]
  obtain ⟨hi, hval⟩ := List.getElem?_eq_some_iff.mp hget
  refine ⟨hi, ?_⟩
  rw [hval]
  exact hall _ (List.getElem_mem hlt)

theorem getElem_wide (h : Split s i front (c :: rest)) (hc : ¬ Ascii c) (hi : i < s.length) :
    128 ≤ (s[i]).toNat := by
  obtain ⟨_, hb⟩ := h.wideBytes hc 0 c.utf8Size_pos
  exact hb

end Split

section Search

variable {w : List Char}

theorem after_utf8 (hw : AsciiWord w) (t : List Char) :
    after (w.map ofAscii) (utf8 t) = (after w t).map utf8 := by
  induction w generalizing t with
  | nil => rfl
  | cons a w ih =>
    have ha : Ascii a := hw a List.mem_cons_self
    have hrest := ih fun d hd => hw d (List.mem_cons_of_mem _ hd)
    cases t with
    | nil => rfl
    | cons c t =>
      by_cases hc : Ascii c
      · simp only [List.map_cons, utf8_cons, encode_ascii hc, List.cons_append, List.nil_append, after,
          ofAscii_inj ha hc]
        by_cases he : a = c
        · simp only [he, if_true, hrest]
        · simp only [he, if_false, Option.map_none]
      · obtain ⟨b, bs, he, hb, _⟩ := encode_wide hc
        have hne : ofAscii a ≠ b := by
          intro h
          have := toNat_ofAscii ha
          rw [h] at this
          omega
        have hac : a ≠ c := fun h => hc (h ▸ ha)
        simp only [List.map_cons, utf8_cons, he, List.cons_append, after, hne, if_false, hac,
          Option.map_none]

theorem findAfter_foreign {a : Byte} {v u : List Byte} (hu : a ∉ u) (s : List Byte) :
    findAfter (a :: v) (u ++ s) = findAfter (a :: v) s := by
  induction u with
  | nil => rfl
  | cons b u ih =>
    obtain ⟨hb, hu'⟩ := not_or.mp fun hm => hu (List.mem_cons.mpr hm)
    have hnone : after (a :: v) (b :: (u ++ s)) = none := by simp [after, hb]
    rw [List.cons_append, findAfter_cons_of_none hnone, ih hu']

/-- An ASCII word is found in the bytes of a text where it is found in the text. -/
theorem findAfter_utf8 (hne : w ≠ []) (hw : AsciiWord w) (t : List Char) :
    findAfter (w.map ofAscii) (utf8 t) = (findAfter w t).map utf8 := by
  induction t with
  | nil => exact after_utf8 hw []
  | cons c t ih =>
    have hhead := after_utf8 hw (c :: t)
    cases ha : after w (c :: t) with
    | some r =>
      rw [ha] at hhead
      rw [findAfter_of_after hhead, findAfter_of_after ha]
      rfl
    | none =>
      rw [ha] at hhead
      rw [findAfter_cons_of_none ha, ← ih]
      by_cases hc : Ascii c
      · rw [utf8_cons, encode_ascii hc] at hhead ⊢
        exact findAfter_cons_of_none hhead
      · obtain ⟨b, bs, he, _, hall⟩ := encode_wide hc
        cases w with
        | nil => exact absurd rfl hne
        | cons a w =>
          have ha : Ascii a := hw a List.mem_cons_self
          have hnot : ofAscii a ∉ b :: bs := by
            intro hm
            have hlow := toNat_ofAscii ha
            have hhigh := hall _ hm
            omega
          rw [utf8_cons, he]
          exact findAfter_foreign hnot _

theorem after_eq_drop {v s r : List Byte} (h : after v s = some r) :
    r = s.drop v.length ∧ v.length ≤ s.length := by
  rw [after_eq_some h, List.drop_left, List.length_append]
  exact ⟨rfl, Nat.le_add_right _ _⟩

theorem find_eq_none {v s : List Byte} : find v s = none ↔ findAfter v s = none := by
  induction s with
  | nil => cases v <;> simp [find, findAfter, after]
  | cons b s ih =>
    cases ha : after v (b :: s) with
    | some r => simp [find, isPrefixOf_eq_after, ha, findAfter]
    | none => simp [find, isPrefixOf_eq_after, ha, findAfter, ih]

theorem findAfter_of_find {v s : List Byte} {p : Nat} (h : find v s = some p) :
    findAfter v s = some (s.drop (p + v.length)) ∧ p + v.length ≤ s.length := by
  induction s generalizing p with
  | nil =>
    cases v with
    | nil =>
      obtain rfl : 0 = p := by simpa [find] using h
      exact ⟨rfl, Nat.le_refl _⟩
    | cons a v => simp [find] at h
  | cons b s ih =>
    cases ha : after v (b :: s) with
    | some r =>
      obtain ⟨hr, hl⟩ := after_eq_drop ha
      obtain rfl : 0 = p := by simpa [find, isPrefixOf_eq_after, ha] using h
      rw [findAfter_of_after ha, Nat.zero_add, hr]
      exact ⟨rfl, hl⟩
    | none =>
      obtain ⟨q, hq, rfl⟩ : ∃ q, find v s = some q ∧ q + 1 = p := by
        simpa [find, isPrefixOf_eq_after, ha] using h
      obtain ⟨hf, hl⟩ := ih hq
      rw [findAfter_cons_of_none ha, hf, List.length_cons]
      refine ⟨?_, by omega⟩
      rw [show q + 1 + v.length = q + v.length + 1 by omega, List.drop_succ_cons]

/-- Behind a match the text goes on, at a position that splits it. -/
theorem Split.find {s : List Byte} {i p : Nat} {front rest : List Char} (h : Split s i front rest)
    (hne : w ≠ []) (hw : AsciiWord w) (hp : Bytes.find (utf8 w) (utf8 rest) = some p) :
    ∃ before r, findAfter w rest = some r ∧ Split s (i + p + (utf8 w).length) (front ++ before) r := by
  obtain ⟨hf, hle⟩ := findAfter_of_find hp
  rw [utf8_ascii hw, findAfter_utf8 hne hw] at hf
  obtain ⟨r, hr, hdrop⟩ := Option.map_eq_some_iff.mp hf
  obtain ⟨before, hb⟩ := findAfter_eq_some hr
  refine ⟨before ++ w, r, hr, ?_, ?_⟩
  · rw [h.bytes, hb]
    simp
  · have hlen := congrArg List.length hdrop
    have hrest : (utf8 rest).length = (utf8 before).length + ((utf8 w).length + (utf8 r).length) := by
      rw [hb, utf8_append, utf8_append, List.length_append, List.length_append]
    rw [utf8_ascii hw] at hle hrest ⊢
    rw [List.length_drop] at hlen
    rw [utf8_append, utf8_append, List.length_append, List.length_append, ← h.position, utf8_ascii hw]
    omega

theorem find_utf8_none (hne : w ≠ []) (hw : AsciiWord w) {rest : List Char} (hp : find (utf8 w) (utf8 rest) = none) :
    findAfter w rest = none := by
  have hf := find_eq_none.mp hp
  rw [utf8_ascii hw, findAfter_utf8 hne hw] at hf
  exact Option.map_eq_none_iff.mp hf

end Search

end Bytes
