import Allgres.Json
import Mathlib.Algebra.Group.Nat.Defs
import Mathlib.Data.Rat.Defs

/-! Reading JSON text: the `::jsonb` cast, the `::double precision` cast, and
`extract_first_json`, which looks for an object inside the text of a model. -/

namespace Allgres

namespace Json

def isBlank (c : Char) : Bool :=
  c == ' ' || c == '\t' || c == '\n' || c == '\r'

def skipBlanks (cs : List Char) : List Char :=
  cs.dropWhile isBlank

def digitsToNat (ds : List Char) : Nat :=
  ds.foldl (fun n d => n * 10 + (d.toNat - 48)) 0

/-- The text `numeric` prints for digits with a decimal point before the last `scale`. -/
def pointed (n scale : Nat) : String :=
  let ds := (toString n).toList
  let ds := List.replicate (scale + 1 - ds.length) '0' ++ ds
  if scale = 0 then String.ofList ds
  else String.ofList (ds.take (ds.length - scale) ++ '.' :: ds.drop (ds.length - scale))

/-- The digits that `pointed` puts the point between. -/
def pointDigits (n scale : Nat) : List Char :=
  List.replicate (scale + 1 - (toString n).toList.length) '0' ++ (toString n).toList

theorem pointDigits_ten (n scale : Nat) : pointDigits (n * 10) (scale + 1) = pointDigits n scale ++ ['0'] := by
  have hdigits : ∀ k : Nat, (toString k).toList = Nat.toDigits 10 k := fun k => Nat.toList_repr
  unfold pointDigits
  rw [hdigits, hdigits]
  rcases Nat.eq_zero_or_pos n with rfl | hn
  · simp [Nat.toDigits_zero, List.replicate_succ']
  · have hnext : Nat.toDigits 10 (n * 10) = Nat.toDigits 10 n ++ ['0'] := by
      have h := Nat.toDigits_append_toDigits (b := 10) (n := n) (d := 0) (by decide) hn (by decide)
      rw [Nat.mul_comm, ← Nat.add_zero (10 * n), ← h]
      rfl
    rw [hnext, List.length_append]
    simp [Nat.add_sub_add_right]

theorem not_mem_pointDigits (n scale : Nat) : '.' ∉ pointDigits n scale := by
  intro h
  rcases List.mem_append.mp h with h | h
  · exact absurd (List.eq_of_mem_replicate h) (by decide)
  · rw [show (toString n).toList = Nat.toDigits 10 n from Nat.toList_repr] at h
    exact absurd (Nat.isDigit_of_mem_toDigits (by decide) (by decide) h) (by decide)

/-- A zero more behind the point shows another scale of the same number. -/
theorem unscaled_pointed (n scale : Nat) :
    unscaled (pointed (n * 10) (scale + 1)) = unscaled (pointed n scale) := by
  have hp : ∀ m k, pointed m k = if k = 0 then String.ofList (pointDigits m k)
      else String.ofList ((pointDigits m k).take ((pointDigits m k).length - k) ++
        '.' :: (pointDigits m k).drop ((pointDigits m k).length - k)) := fun m k => rfl
  have hlen : scale < (pointDigits n scale).length := by
    simp only [pointDigits, List.length_append, List.length_replicate]
    omega
  have hnone := not_mem_pointDigits n scale
  rw [hp, hp, pointDigits_ten, if_neg (Nat.succ_ne_zero scale)]
  generalize pointDigits n scale = ds at hlen hnone
  have hle : ds.length + 1 - (scale + 1) ≤ ds.length := by omega
  rw [List.length_append, List.length_singleton, List.take_append_of_le_length hle,
    List.drop_append_of_le_length hle, Nat.add_sub_add_right]
  by_cases hs : scale = 0
  · subst hs
    have hlast : (ds.reverse).dropWhile (· = '.') = ds.reverse := by
      cases hr : ds.reverse with
      | nil => rfl
      | cons d rest =>
        have hd : d ≠ '.' := by
          rintro rfl
          exact hnone (List.mem_reverse.mp (hr ▸ List.mem_cons_self))
        simp [hd]
    simp [unscaled, hnone, hlast]
  · simp [unscaled, hs]

/-- The limits of `numeric`: 131072 digits before and 16383 behind the point, and exponents below
half of the largest `int`. -/
def numericFits (n : Nat) (scale exp : Int) : Bool :=
  scale ≤ 16383 && exp < 1073741823 && (n = 0 || ((toString n).length : Int) - scale ≤ 131072)

/-- The text of a number literal as `numeric` keeps it, within its limits. -/
def numericText (negative : Bool) (int frac : List Char) (exp : Int) : Option String :=
  let n := digitsToNat (int ++ frac)
  let scale : Int := frac.length - exp
  if numericFits n scale exp then
    let text := if n = 0 then pointed 0 scale.toNat
      else if scale ≤ 0 then pointed (n * 10 ^ (-scale).toNat) 0 else pointed n scale.toNat
    some (if negative ∧ n ≠ 0 then "-" ++ text else text)
  else none

/-- The exponent of a number literal and the text behind it. -/
def readExponent (cs : List Char) : Option (Int × List Char) :=
  match cs with
  | c :: rest =>
    if c = 'e' ∨ c = 'E' then
      let (negative, rest) := match rest with
        | '-' :: r => (true, r)
        | '+' :: r => (false, r)
        | r => (false, r)
      let ds := rest.takeWhile Char.isDigit
      if ds = [] then none
      else
        let n : Int := digitsToNat ds
        some (if negative then -n else n, rest.dropWhile Char.isDigit)
    else some (0, cs)
  | [] => some (0, [])

def readFraction (cs : List Char) : Option (List Char × List Char) :=
  match cs with
  | '.' :: rest =>
    let ds := rest.takeWhile Char.isDigit
    if ds = [] then none else some (ds, rest.dropWhile Char.isDigit)
  | _ => some ([], cs)

def readNumber (cs : List Char) : Option (Json × List Char) := do
  let (negative, cs) := match cs with
    | '-' :: r => (true, r)
    | r => (false, r)
  let int := cs.takeWhile Char.isDigit
  if int = [] ∨ (int.head? = some '0' ∧ int.length > 1) then none
  let (frac, cs) ← readFraction (cs.dropWhile Char.isDigit)
  let (exp, cs) ← readExponent cs
  let text ← numericText negative int frac exp
  pure (num text, cs)

def hex4 (cs : List Char) : Option (Nat × List Char) :=
  match cs with
  | a :: b :: c :: d :: rest => do
    let w ← hexDigit a
    let x ← hexDigit b
    let y ← hexDigit c
    let z ← hexDigit d
    pure (((w * 16 + x) * 16 + y) * 16 + z, rest)
  | _ => none

/-- The character of a `\u` escape, with the second half of a surrogate pair. -/
def readUnicode (cs : List Char) : Option (Char × List Char) := do
  let (u, cs) ← hex4 cs
  if u = 0 then none
  else if 0xD800 ≤ u ∧ u < 0xDC00 then
    match cs with
    | '\\' :: 'u' :: rest => do
      let (v, rest) ← hex4 rest
      if 0xDC00 ≤ v ∧ v < 0xE000 then
        pure (Char.ofNat (0x10000 + (u - 0xD800) * 0x400 + (v - 0xDC00)), rest)
      else none
    | _ => none
  else if 0xDC00 ≤ u ∧ u < 0xE000 then none
  else pure (Char.ofNat u, cs)

def readEscape (cs : List Char) : Option (Char × List Char) :=
  match cs with
  | '"' :: rest => some ('"', rest)
  | '\\' :: rest => some ('\\', rest)
  | '/' :: rest => some ('/', rest)
  | 'b' :: rest => some ('\x08', rest)
  | 'f' :: rest => some ('\x0c', rest)
  | 'n' :: rest => some ('\n', rest)
  | 'r' :: rest => some ('\r', rest)
  | 't' :: rest => some ('\t', rest)
  | 'u' :: rest => readUnicode rest
  | _ => none

/-- The characters of a string up to its closing quotation mark. -/
def readString : Nat → List Char → List Char → Option (String × List Char)
  | 0, _, _ => none
  | _ + 1, _, [] => none
  | n + 1, acc, c :: cs =>
    if c = '"' then some (String.ofList acc.reverse, cs)
    else if c = '\\' then
      (readEscape cs).bind fun r => readString n (r.1 :: acc) r.2
    else if c.toNat < 32 then none
    else readString n (c :: acc) cs

def readWord (cs : List Char) : Option (Json × List Char) :=
  if "true".toList.isPrefixOf cs then some (bool true, cs.drop 4)
  else if "false".toList.isPrefixOf cs then some (bool false, cs.drop 5)
  else if "null".toList.isPrefixOf cs then some (null, cs.drop 4)
  else none

mutual

/-- One value. The first argument bounds the number of calls; the length of the
text is always enough. -/
def readValue : Nat → List Char → Option (Json × List Char)
  | 0, _ => none
  | n + 1, cs => match skipBlanks cs with
    | [] => none
    | '"' :: rest => (readString (n + 1) [] rest).map fun r => (str r.1, r.2)
    | '[' :: rest => match skipBlanks rest with
      | ']' :: rest => some (arr [], rest)
      | rest => (readItems n rest).map fun r => (arr r.1, r.2)
    | '{' :: rest => match skipBlanks rest with
      | '}' :: rest => some (object [], rest)
      | rest => (readFields n rest).map fun r => (object r.1, r.2)
    | c :: rest =>
      if c.isDigit ∨ c = '-' then readNumber (c :: rest) else readWord (c :: rest)

def readItems : Nat → List Char → Option (List Json × List Char)
  | 0, _ => none
  | n + 1, cs => (readValue n cs).bind fun r => match skipBlanks r.2 with
    | ',' :: rest => (readItems n rest).map fun s => (r.1 :: s.1, s.2)
    | ']' :: rest => some ([r.1], rest)
    | _ => none

def readFields : Nat → List Char → Option (List (String × Json) × List Char)
  | 0, _ => none
  | n + 1, cs => match skipBlanks cs with
    | '"' :: rest => (readString (n + 1) [] rest).bind fun k => match skipBlanks k.2 with
      | ':' :: rest => (readValue n rest).bind fun r => match skipBlanks r.2 with
        | ',' :: rest => (readFields n rest).map fun s => ((k.1, r.1) :: s.1, s.2)
        | '}' :: rest => some ([(k.1, r.1)], rest)
        | _ => none
      | _ => none
    | _ => none

end

/-- `s::jsonb`, no value where the cast raises. -/
def parse (s : String) : Option Json :=
  let cs := s.toList
  match readValue (cs.length + 1) cs with
  | some (v, rest) => if skipBlanks rest = [] then some v else none
  | none => none

/-- Where the scan of `extract_first_json` is: outside an object, or inside one
whose characters so far are kept in reverse. -/
inductive Scan where
  | outside
  | inside (chunk : List Char) (depth : Nat) (inStr esc : Bool)

/-- One character of the scan. -/
def Scan.step (s : Scan) (ch : Char) : Scan :=
  match s with
  | outside => if ch = '{' then inside ['{'] 1 false false else outside
  | inside chunk depth true true => inside (ch :: chunk) depth true false
  | inside chunk depth true false =>
    if ch = '\\' then inside (ch :: chunk) depth true true
    else inside (ch :: chunk) depth (ch != '"') false
  | inside chunk depth false _ =>
    if ch = '"' then inside (ch :: chunk) depth true false
    else if ch = '{' then inside (ch :: chunk) (depth + 1) false false
    else if ch = '}' then inside (ch :: chunk) (depth - 1) false false
    else inside (ch :: chunk) depth false false

/-- The text of an object that has just been closed. -/
def Scan.closed : Scan → Option String
  | inside chunk 0 _ _ => some (String.ofList chunk.reverse)
  | _ => none

def scanObject : Scan → List Char → Option Json
  | _, [] => none
  | s, ch :: cs =>
    let s := s.step ch
    match s.closed with
    | some chunk => match parse chunk with
      | some v => some v
      | none => scanObject .outside cs
    | none => scanObject s cs

end Json

def extractFirstJson (text : Option String) : Option Json :=
  let s := orEmpty text
  if btrim s = "" then none
  else
    -- the fast path: the whole text is one object
    let whole := if (btrim s).toList.head? = some '{' then Json.parse (btrim s) else none
    match whole with
    | some v => some v
    | none => Json.scanObject .outside s.toList

/-- `s::double precision`: a decimal number within the range of the type, an
infinity or NaN. The text is kept. -/
def castFloat8 (s : String) : Option String :=
  let t := stripSpace s.toList
  let (sign, u) := match t with
    | '-' :: r => (['-'], r)
    | '+' :: r => ([], r)
    | r => ([], r)
  let w := String.ofList (u.map Char.toLower)
  if w ∈ ["nan", "inf", "infinity"] then some (String.ofList (sign ++ u))
  else
    let int := u.takeWhile Char.isDigit
    let (frac, rest) := match u.dropWhile Char.isDigit with
      | '.' :: r => (r.takeWhile Char.isDigit, r.dropWhile Char.isDigit)
      | r => ([], r)
    if int = [] ∧ frac = [] then none
    else match Json.readExponent rest with
      | some (exp, []) =>
        let n := Json.digitsToNat (int ++ frac)
        let scale := exp - frac.length
        -- beyond these magnitudes the value is infinite or zero, which the cast refuses
        let high := ((int ++ frac).length : Int) + scale
        if n ≠ 0 ∧ (high > 400 ∨ high < -400) then none
        else
          let v : Rat := n * (10 : Rat) ^ scale
          if n ≠ 0 ∧ (v ≥ (2 : Rat) ^ 1024 - (2 : Rat) ^ 970 ∨ v ≤ (1 / 2 : Rat) ^ 1075) then none
          else some (String.ofList (sign ++ u))
      | _ => none

end Allgres
