import Allgres.JsonText
import Allgres.Text
import Mathlib.Algebra.Order.Field.Rat

/-! The type `numeric`: what its input function reads, how its values compare, and the
quotient of two counts. -/

namespace Allgres

/-- A finite value, with the digits it keeps behind the point. -/
structure Decimal where
  digits : Int
  scale : Nat
  deriving DecidableEq

namespace Decimal

def value (d : Decimal) : Rat :=
  d.digits / 10 ^ d.scale

def text (d : Decimal) : String :=
  (if d.digits < 0 then "-" else "") ++ Json.pointed d.digits.natAbs d.scale

def neg (d : Decimal) : Decimal :=
  { d with digits := -d.digits }

end Decimal

inductive Numeric where
  | negInfinity | finite (d : Decimal) | infinity | nan
  deriving DecidableEq

namespace Numeric

/-- `a < b`, where NaN is above all else. -/
def lt : Numeric → Numeric → Bool
  | finite a, finite b => decide (a.value < b.value)
  | finite _, infinity | finite _, nan => true
  | negInfinity, finite _ | negInfinity, infinity | negInfinity, nan => true
  | infinity, nan => true
  | _, _ => false

/-- `to_jsonb(n)`. -/
def json : Numeric → Json
  | finite d => .num d.text
  | infinity => .str "Infinity"
  | negInfinity => .str "-Infinity"
  | nan => .str "NaN"

end Numeric

def digitsOrNone (cs : List Char) : Option Nat :=
  if cs = [] then some 0 else digitsValue 10 0 false cs

/-- The exponent behind the digits of a number. -/
def decimalExponent : List Char → Option Int
  | [] => some 0
  | _ :: '-' :: cs => (digitsValue 10 0 false cs).map fun n => -(n : Int)
  | _ :: '+' :: cs => (digitsValue 10 0 false cs).map fun n => (n : Int)
  | _ :: cs => (digitsValue 10 0 false cs).map fun n => (n : Int)

def castDecimal (cs : List Char) : Option Decimal := do
  let isExponent := fun c : Char => c == 'e' || c == 'E'
  let mantissa := cs.takeWhile fun c => !isExponent c
  let int := mantissa.takeWhile (· != '.')
  let frac := (mantissa.dropWhile (· != '.')).drop 1
  if int = [] ∧ frac = [] then none
  let n ← digitsOrNone int
  let m ← digitsOrNone frac
  let exp ← decimalExponent (cs.dropWhile fun c => !isExponent c)
  let places := (frac.filter (· != '_')).length
  let scale : Int := places - exp
  let digits := n * 10 ^ places + m
  if Json.numericFits digits scale exp = false then none
  pure (if digits = 0 then ⟨0, scale.toNat⟩ else if scale ≤ 0 then ⟨digits * 10 ^ (-scale).toNat, 0⟩ else ⟨digits, scale.toNat⟩)

def castMagnitude (cs : List Char) : Option Decimal :=
  match cs with
  | '0' :: c :: _ =>
    if c.toLower ∈ ['x', 'o', 'b'] then (magnitude (cs.map Char.toLower)).map fun n => ⟨n, 0⟩
    else castDecimal cs
  | _ => castDecimal cs

/-- `s::numeric`. -/
def castNumeric (s : String) : Option Numeric :=
  let cs := stripSpace s.toList
  let word := fun cs : List Char => String.ofList (cs.map Char.toLower)
  let (negative, body) := match cs with
    | '-' :: cs => (true, cs)
    | '+' :: cs => (false, cs)
    | cs => (false, cs)
  if word cs = "nan" then some .nan
  else if word body ∈ ["inf", "infinity"] then some (if negative then .negInfinity else .infinity)
  else (castMagnitude body).map fun d => .finite (if negative then d.neg else d)

/-- The number of digits to base 10000 behind the first, and that digit. -/
def leadingDigit (n : Nat) : Nat × Nat :=
  let weight := ((toString n).length - 1) / 4
  (weight, n / 10000 ^ weight)

/-- `a::numeric / b` of two counts, which keeps at least sixteen significant digits. -/
def divideCounts (a b : Nat) : Decimal :=
  let (weightA, firstA) := leadingDigit a
  let (weightB, firstB) := leadingDigit b
  let weight : Int := (weightA : Int) - weightB - if firstA ≤ firstB then 1 else 0
  let scale := min (16 - 4 * weight).toNat 1000
  { digits := ((2 * a * 10 ^ scale + b) / (2 * b) : Nat)
    scale }

end Allgres
