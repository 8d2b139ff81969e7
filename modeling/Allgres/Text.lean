import Mathlib.Data.List.Basic

/-! The text functions and input casts of PostgreSQL that the control plane
uses. `lower` folds ASCII letters, the case mapping of the `C` collation. -/

namespace Allgres

/-- Named, so that the membership of a text in a list is decided by one term everywhere. -/
instance lawfulBEqChars : LawfulBEq (List Char) :=
  inferInstance

def lower (s : String) : String :=
  String.ofList (s.toList.map Char.toLower)

def upper (s : String) : String :=
  String.ofList (s.toList.map Char.toUpper)

theorem toLower_toLower (c : Char) : c.toLower.toLower = c.toLower := by
  unfold Char.toLower
  by_cases h : c.val ≥ 'A'.val ∧ c.val ≤ 'Z'.val
  · have h' : ¬ (c.val + ('a'.val - 'A'.val) ≥ 'A'.val ∧
        c.val + ('a'.val - 'A'.val) ≤ 'Z'.val) := by
      simp only [ge_iff_le, UInt32.le_iff_toNat_le, UInt32.toNat_add, UInt32.toNat_sub] at h ⊢
      have hA : ('A'.val).toNat = 65 := rfl
      have hZ : ('Z'.val).toNat = 90 := rfl
      have ha : ('a'.val).toNat = 97 := rfl
      omega
    simp only [h, h', and_self, ↓reduceDIte]
  · simp only [h, ↓reduceDIte]

theorem lower_lower (s : String) : lower (lower s) = lower s := by
  unfold lower
  rw [String.toList_ofList, List.map_map]
  congr 1
  refine List.map_congr_left fun c _ => ?_
  exact toLower_toLower c

/-- `ltrim(s, cs)` on characters. -/
def ltrimChars (drop : Char → Bool) (s : List Char) : List Char :=
  s.dropWhile drop

/-- `rtrim(s, cs)` on characters. -/
def rtrimChars (drop : Char → Bool) (s : List Char) : List Char :=
  (s.reverse.dropWhile drop).reverse

section Stops

variable {p : Char → Bool}

theorem takeWhile_stop {xs ys : List Char} (hxs : ∀ c ∈ xs, p c = true)
    (hys : ys.head?.all (fun c => !p c) = true) : (xs ++ ys).takeWhile p = xs := by
  induction xs with
  | nil =>
    cases ys with
    | nil => rfl
    | cons y ys =>
      have hy : p y = false := by simpa using hys
      simp [hy]
  | cons x xs ih =>
    have hx : p x = true := hxs x (by simp)
    simp [hx, ih fun c hc => hxs c (by simp [hc])]

theorem dropWhile_stop {xs ys : List Char} (hxs : ∀ c ∈ xs, p c = true)
    (hys : ys.head?.all (fun c => !p c) = true) : (xs ++ ys).dropWhile p = ys := by
  have h := List.takeWhile_append_dropWhile (p := p) (l := xs ++ ys)
  rw [takeWhile_stop hxs hys] at h
  exact List.append_cancel_left h

theorem head_dropWhile (p : Char → Bool) (xs : List Char) :
    (xs.dropWhile p).head?.all (fun c => !p c) = true := by
  induction xs with
  | nil => rfl
  | cons x xs ih =>
    by_cases hx : p x = true
    · simpa [hx] using ih
    · simp [hx]

end Stops

def ltrim (s : String) (c : Char) : String :=
  String.ofList (ltrimChars (· == c) s.toList)

def rtrim (s : String) (c : Char) : String :=
  String.ofList (rtrimChars (· == c) s.toList)

/-- `btrim(s)`, and `trim(s)`, which strips spaces only. -/
def btrim (s : String) : String :=
  String.ofList (rtrimChars (· == ' ') (ltrimChars (· == ' ') s.toList))

def startsWith (s t : String) : Bool :=
  t.toList.isPrefixOf s.toList

def left (s : String) (n : Nat) : String :=
  String.ofList (s.toList.take n)

/-- `NULLIF(s, '')` for a possibly absent text. -/
def nullIfEmpty (s : Option String) : Option String :=
  s.bind fun t => if t = "" then none else some t

/-- `NULLIF(btrim(s), '')`. -/
def trimmed (s : Option String) : Option String :=
  nullIfEmpty (s.map btrim)

/-- `COALESCE(s, '')`. -/
def orEmpty (s : Option String) : String :=
  s.getD ""

/-- C `isspace`, which the input functions strip around a value. -/
def isSpace (c : Char) : Bool :=
  c == ' ' || c == '\t' || c == '\n' || c == '\x0b' || c == '\x0c' || c == '\r'

def stripSpace (s : List Char) : List Char :=
  rtrimChars isSpace (ltrimChars isSpace s)

/-- `s::boolean`: any unambiguous front part of the words, in any case. -/
def castBool (s : String) : Option Bool :=
  let w := String.ofList ((stripSpace s.toList).map Char.toLower)
  if w ∈ ["t", "tr", "tru", "true", "y", "ye", "yes", "on", "1"] then some true
  else if w ∈ ["f", "fa", "fal", "fals", "false", "n", "no", "of", "off", "0"] then some false
  else none

def hexDigit (c : Char) : Option Nat :=
  if '0' ≤ c ∧ c ≤ '9' then some (c.toNat - 48)
  else if 'a' ≤ c ∧ c ≤ 'f' then some (c.toNat - 87)
  else if 'A' ≤ c ∧ c ≤ 'F' then some (c.toNat - 55)
  else none

/-- Digits of a base, with single underscores between them. -/
def digitsValue (base : Nat) : Nat → Bool → List Char → Option Nat
  | acc, ready, [] => if ready then some acc else none
  | acc, ready, c :: cs =>
    if c = '_' then (if ready then digitsValue base acc false cs else none)
    else match hexDigit c with
      | some d => if d < base then digitsValue base (acc * base + d) true cs else none
      | none => none

def magnitude : List Char → Option Nat
  | '0' :: 'x' :: cs => digitsValue 16 0 true cs
  | '0' :: 'o' :: cs => digitsValue 8 0 true cs
  | '0' :: 'b' :: cs => digitsValue 2 0 true cs
  | cs => digitsValue 10 0 false cs

/-- `s::int`, with the range of a four-byte integer. -/
def castInt (s : String) : Option Int :=
  let v : Option Int := match stripSpace s.toList with
    | '-' :: cs => (magnitude cs).map fun n => -(n : Int)
    | '+' :: cs => (magnitude cs).map fun n => (n : Int)
    | cs => (magnitude cs).map fun n => (n : Int)
  v.bind fun n => if -2147483648 ≤ n ∧ n ≤ 2147483647 then some n else none

/-- A uuid is carried by its value. -/
abbrev Uuid := Nat

/-- Sixteen pairs of hexadecimal digits, a hyphen allowed behind every second pair. -/
def uuidPairs : Nat → Nat → List Char → Option (Nat × List Char)
  | 0, acc, cs => some (acc, cs)
  | n + 1, acc, a :: b :: cs =>
    match hexDigit a, hexDigit b with
    | some x, some y =>
      let acc := acc * 256 + x * 16 + y
      match cs with
      | '-' :: rest => if n % 2 = 0 ∧ n ≠ 0 then uuidPairs n acc rest else uuidPairs n acc cs
      | _ => uuidPairs n acc cs
    | _, _ => none
  | _ + 1, _, _ => none

/-- `s::uuid`, with or without braces. -/
def castUuid (s : String) : Option Uuid :=
  match s.toList with
  | '{' :: cs => match uuidPairs 16 0 cs with
    | some (v, ['}']) => some v
    | _ => none
  | cs => match uuidPairs 16 0 cs with
    | some (v, []) => some v
    | _ => none

def hexChar (n : Nat) : Char :=
  if n < 10 then Char.ofNat (48 + n) else Char.ofNat (87 + n)

/-- The last `n` hexadecimal digits of a number. -/
def hexDigits : Nat → Nat → List Char
  | 0, _ => []
  | n + 1, v => hexDigits n (v / 16) ++ [hexChar (v % 16)]

/-- `replace(id::text, '-', '')`. -/
def uuidHex (id : Uuid) : String :=
  String.ofList (hexDigits 32 id)

/-- `id::text`. -/
def uuidText (id : Uuid) : String :=
  let ds := hexDigits 32 id
  String.ofList (ds.take 8 ++ '-' :: (ds.drop 8).take 4 ++ '-' :: (ds.drop 12).take 4 ++
    '-' :: (ds.drop 16).take 4 ++ '-' :: ds.drop 20)

end Allgres
