import Mathlib.Data.List.Basic

/-! Byte strings: the bytes of a text, the lossy way back, and a comparison whose time does not
depend on the contents. -/

namespace Bytes

abbrev Byte := UInt8

def ofString (s : String) : List Byte :=
  s.toUTF8.data.toList

theorem ofString_inj {s t : String} (h : ofString s = ofString t) : s = t := by
  apply String.toByteArray_inj.mp
  have hdata : s.toUTF8.data = t.toUTF8.data := Array.toList_inj.mp h
  exact congrArg ByteArray.mk hdata

/-- What is still to come of a sequence: the number of bytes, the code so far, and the range of the
next byte. -/
structure Partial where
  missing : Nat
  code : Nat
  lo : Nat := 128
  hi : Nat := 191

inductive Lead where
  | char (c : Char)
  | start (p : Partial)
  | invalid

def lead (b : Byte) : Lead :=
  let n := b.toNat
  if n < 128 then .char (Char.ofNat n)
  else if 194 ≤ n ∧ n ≤ 223 then .start ⟨1, n - 192, 128, 191⟩
  else if n = 224 then .start ⟨2, 0, 160, 191⟩
  else if n = 237 then .start ⟨2, 13, 128, 159⟩
  else if 225 ≤ n ∧ n ≤ 239 then .start ⟨2, n - 224, 128, 191⟩
  else if n = 240 then .start ⟨3, 0, 144, 191⟩
  else if 241 ≤ n ∧ n ≤ 243 then .start ⟨3, n - 240, 128, 191⟩
  else if n = 244 then .start ⟨3, 4, 128, 143⟩
  else .invalid

def replacement : Char := Char.ofNat 65533

/-- The characters of a byte string, with one replacement for each longest part that starts no
character. -/
def lossy : Option Partial → List Byte → List Char
  | none, [] => []
  | some _, [] => [replacement]
  | none, b :: bs => match lead b with
    | .char c => c :: lossy none bs
    | .start p => lossy (some p) bs
    | .invalid => replacement :: lossy none bs
  | some p, b :: bs =>
    if p.lo ≤ b.toNat ∧ b.toNat ≤ p.hi then
      let code := p.code * 64 + (b.toNat - 128)
      if p.missing = 1 then Char.ofNat code :: lossy none bs
      else lossy (some ⟨p.missing - 1, code, 128, 191⟩) bs
    else replacement :: match lead b with
      | .char c => c :: lossy none bs
      | .start p => lossy (some p) bs
      | .invalid => replacement :: lossy none bs

def toStringLossy (bs : List Byte) : String :=
  String.ofList (lossy none bs)

/-- The characters of a byte string that is UTF-8 throughout. -/
def strict : Option Partial → List Byte → Option (List Char)
  | none, [] => some []
  | some _, [] => none
  | none, b :: bs => match lead b with
    | .char c => (strict none bs).map (c :: ·)
    | .start p => strict (some p) bs
    | .invalid => none
  | some p, b :: bs =>
    if p.lo ≤ b.toNat ∧ b.toNat ≤ p.hi then
      let code := p.code * 64 + (b.toNat - 128)
      if p.missing = 1 then (strict none bs).map (Char.ofNat code :: ·)
      else strict (some ⟨p.missing - 1, code, 128, 191⟩) bs
    else none

def fromUtf8 (bs : List Byte) : Option String :=
  (strict none bs).map String.ofList

def difference : List (Byte × Byte) → Byte
  | [] => 0
  | (x, y) :: rest => (x ^^^ y) ||| difference rest

def constantTimeEq (a b : List Byte) : Bool :=
  a.length == b.length && difference (a.zip b) == 0

theorem difference_eq_zero {a b : List Byte} (hlen : a.length = b.length) :
    difference (a.zip b) = 0 ↔ a = b := by
  induction a generalizing b with
  | nil =>
    cases b with
    | nil => simp [difference]
    | cons y b => simp at hlen
  | cons x a ih =>
    cases b with
    | nil => simp at hlen
    | cons y b =>
      have hrest := ih (by simpa using hlen)
      simp only [List.zip_cons_cons, difference, UInt8.or_eq_zero_iff, UInt8.xor_eq_zero_iff, hrest,
        List.cons.injEq]

theorem constantTimeEq_iff {a b : List Byte} : constantTimeEq a b = true ↔ a = b := by
  unfold constantTimeEq
  by_cases hlen : a.length = b.length
  · simp [hlen, difference_eq_zero hlen]
  · have hne : a ≠ b := fun h => hlen (congrArg List.length h)
    simp [hlen, hne]

section Utf8

theorem ofString_eq (s : String) : ofString s = s.toList.flatMap String.utf8EncodeChar := by
  have h : s.toUTF8 = (s.toList.flatMap String.utf8EncodeChar).toByteArray := String.utf8Encode_toList.symm
  unfold ofString
  rw [h]
  simp

theorem toNat_small {n : Nat} (h : n < 256) : (UInt8.ofNat n).toNat = n := by
  rw [UInt8.toNat_ofNat', Nat.mod_eq_of_lt h]

/-- A byte that ends a sequence. -/
theorem lossy_last {code lo hi n : Nat} (h : lo ≤ n ∧ n ≤ hi) (hn : n < 256) (bs : List Byte) :
    lossy (some ⟨1, code, lo, hi⟩) (UInt8.ofNat n :: bs) = Char.ofNat (code * 64 + (n - 128)) :: lossy none bs := by
  rw [lossy, toNat_small hn, if_pos h]
  rfl

/-- A byte that goes on with a sequence. -/
theorem lossy_next {missing code lo hi n : Nat} (h : lo ≤ n ∧ n ≤ hi) (hn : n < 256) (bs : List Byte) :
    lossy (some ⟨missing + 2, code, lo, hi⟩) (UInt8.ofNat n :: bs) =
      lossy (some ⟨missing + 1, code * 64 + (n - 128), 128, 191⟩) bs := by
  rw [lossy, toNat_small hn, if_pos h]
  dsimp only
  rw [if_neg (by omega)]
  rfl

theorem lossy_start {n : Nat} {p : Partial} (h : lead (UInt8.ofNat n) = .start p) (bs : List Byte) :
    lossy none (UInt8.ofNat n :: bs) = lossy (some p) bs := by
  rw [lossy, h]

/-- The bytes of a character are read as that character. -/
theorem lossy_encode (c : Char) (bs : List Byte) :
    lossy none (String.utf8EncodeChar c ++ bs) = c :: lossy none bs := by
  have hvalid : c.toNat < 0xD800 ∨ (0xDFFF < c.toNat ∧ c.toNat < 0x110000) := c.valid
  have hchar : Char.ofNat c.toNat = c := Char.ofNat_toNat c
  unfold String.utf8EncodeChar
  rw [show c.val.toNat = c.toNat from rfl]
  generalize c.toNat = v at hvalid hchar
  dsimp only
  split_ifs with h1 h2 h3
  · have hlead : lead (UInt8.ofNat v) = .char (Char.ofNat v) := by
      unfold lead
      rw [toNat_small (by omega)]
      dsimp only
      rw [if_pos (by omega)]
    rw [List.cons_append, lossy, hlead, hchar]
    rfl
  · have hlead : lead (UInt8.ofNat (v / 64 % 32 + 192)) = .start ⟨1, v / 64, 128, 191⟩ := by
      unfold lead
      rw [toNat_small (by omega)]
      dsimp only
      rw [if_neg (by omega), if_pos (by omega), show v / 64 % 32 + 192 - 192 = v / 64 by omega]
    rw [List.cons_append, List.cons_append, lossy_start hlead, lossy_last (by omega) (by omega),
      show v / 64 * 64 + (v % 64 + 128 - 128) = v by omega, hchar]
    rfl
  · have hlead : ∃ lo hi, lead (UInt8.ofNat (v / 4096 % 16 + 224)) = .start ⟨2, v / 4096, lo, hi⟩ ∧
        lo ≤ v / 64 % 64 + 128 ∧ v / 64 % 64 + 128 ≤ hi := by
      unfold lead
      rw [toNat_small (by omega)]
      dsimp only
      rw [if_neg (by omega), if_neg (by omega)]
      by_cases h4 : v / 4096 = 0
      · rw [if_pos (by omega)]
        exact ⟨160, 191, by rw [h4], by omega, by omega⟩
      rw [if_neg (by omega)]
      by_cases h5 : v / 4096 = 13
      · rw [if_pos (by omega)]
        exact ⟨128, 159, by rw [h5], by omega, by omega⟩
      · rw [if_neg (by omega), if_pos (by omega), show v / 4096 % 16 + 224 - 224 = v / 4096 by omega]
        exact ⟨128, 191, rfl, by omega, by omega⟩
    obtain ⟨lo, hi, hlead, hlo, hhi⟩ := hlead
    simp only [List.cons_append, List.nil_append]
    rw [lossy_start hlead, lossy_next ⟨hlo, hhi⟩ (by omega), lossy_last (by omega) (by omega),
      show (v / 4096 * 64 + (v / 64 % 64 + 128 - 128)) * 64 + (v % 64 + 128 - 128) = v by omega, hchar]
  · have hlead : ∃ lo hi, lead (UInt8.ofNat (v / 262144 % 8 + 240)) = .start ⟨3, v / 262144, lo, hi⟩ ∧
        lo ≤ v / 4096 % 64 + 128 ∧ v / 4096 % 64 + 128 ≤ hi := by
      unfold lead
      rw [toNat_small (by omega)]
      dsimp only
      rw [if_neg (by omega), if_neg (by omega), if_neg (by omega), if_neg (by omega), if_neg (by omega)]
      by_cases h4 : v / 262144 = 0
      · rw [if_pos (by omega)]
        exact ⟨144, 191, by rw [h4], by omega, by omega⟩
      rw [if_neg (by omega)]
      by_cases h5 : v / 262144 = 4
      · rw [if_neg (by omega), if_pos (by omega)]
        exact ⟨128, 143, by rw [h5], by omega, by omega⟩
      · rw [if_pos (by omega), show v / 262144 % 8 + 240 - 240 = v / 262144 by omega]
        exact ⟨128, 191, rfl, by omega, by omega⟩
    obtain ⟨lo, hi, hlead, hlo, hhi⟩ := hlead
    simp only [List.cons_append, List.nil_append]
    rw [lossy_start hlead, lossy_next ⟨hlo, hhi⟩ (by omega), lossy_next (by omega) (by omega),
      lossy_last (by omega) (by omega),
      show ((v / 262144 * 64 + (v / 4096 % 64 + 128 - 128)) * 64 + (v / 64 % 64 + 128 - 128)) * 64 +
        (v % 64 + 128 - 128) = v by omega, hchar]

theorem toStringLossy_ofString (s : String) : toStringLossy (ofString s) = s := by
  have hlist : ∀ cs : List Char, lossy none (cs.flatMap String.utf8EncodeChar) = cs := by
    intro cs
    induction cs with
    | nil => rfl
    | cons c cs ih => rw [List.flatMap_cons, lossy_encode, ih]
  rw [toStringLossy, ofString_eq, hlist, String.ofList_toList]

end Utf8

end Bytes
