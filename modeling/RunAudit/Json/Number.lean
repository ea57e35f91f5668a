import RunAudit.Decimal.Double

/-!
# Numbers in JSON

A number is written with an optional minus, whole digits without leading zeros, and optionally a
fraction and a power of ten. As a double it is read by way of a significand of 64 bits: digits
that no longer fit are dropped, and the significand is then scaled by the power of ten, in the
arithmetic of doubles.

* `Numeral.read?`: the number that a text spells.
* `Numeral.toFloat?`: the double of a number; none if it is too large.
* `Numeral.natural?`: the number as a natural number of 64 bits.
-/

namespace RunAudit.Json

open RunAudit.Decimal

/-- A number as it is written. -/
structure Numeral where
  negative : Bool
  whole : List Char
  /-- The digits behind the point; none at all if there is no point. -/
  fraction : Option (List Char)
  /-- The power of ten, if one is written. -/
  exponent : Option Int
  deriving DecidableEq, Repr

/-- What fits in a significand. -/
def significandBound : Nat := UInt64.size

/-- A significand carried on by whole digits, and the number of digits from the first that does not
fit. -/
def absorbWhole (significand : Nat) : List Char → Nat × Nat
  | [] => (significand, 0)
  | c :: digits =>
    let longer := 10 * significand + digitValue c
    if significandBound ≤ longer then (significand, digits.length + 1)
    else absorbWhole longer digits

/-- A significand carried on by digits behind the point, and the number of those that fit. -/
def absorbFraction (significand : Nat) : List Char → Nat × Nat
  | [] => (significand, 0)
  | c :: digits =>
    let longer := 10 * significand + digitValue c
    if significandBound ≤ longer then (significand, 0)
    else
      let (significand, count) := absorbFraction longer digits
      (significand, count + 1)

/-- The largest power of ten that scales in one step. -/
def widestScale : Int := 308

/-- A double times a power of ten; none if it is too large. -/
def scale (x : Float) (exponent : Int) : Option Float :=
  if exponent < -widestScale then
    if x == 0.0 then some x
    else scale (x / (Literal.finite false 1 widestScale).toFloat) (exponent + widestScale)
  else if exponent < 0 then some (x / (Literal.finite false 1 (-exponent)).toFloat)
  else if widestScale < exponent then if x == 0.0 then some x else none
  else
    let scaled := x * (Literal.finite false 1 exponent).toFloat
    if scaled.isInf then none else some scaled
  termination_by (-exponent).toNat
  decreasing_by
    simp only [widestScale] at *
    omega

namespace Numeral

/-- The number that a whole text spells. -/
def read? (s : List Char) : Option Numeral := do
  let (negative, s) := match s with
    | '-' :: rest => (true, rest)
    | s => (false, s)
  let whole := s.takeWhile (·.isDigit)
  if whole.isEmpty ∨ (whole.head? = some '0' ∧ whole ≠ ['0']) then none
  else
    let rest := s.dropWhile (·.isDigit)
    let (fraction, rest) ← match rest with
      | '.' :: rest =>
        match rest.takeWhile (·.isDigit) with
        | [] => none
        | digits => some (some digits, rest.dropWhile (·.isDigit))
      | rest => some (none, rest)
    match rest with
    | [] => some ⟨negative, whole, fraction, none⟩
    | rest => some ⟨negative, whole, fraction, some (← readExponent rest)⟩

/-- The double of a number; none if it is too large. -/
def toFloat? (n : Numeral) : Option Float := do
  let (significand, dropped) := absorbWhole 0 n.whole
  let (significand, taken) := absorbFraction significand (n.fraction.getD [])
  let size ← scale (nearest false significand 1) (n.exponent.getD 0 + dropped - taken)
  some (if n.negative then -size else size)

/-- The natural number of 64 bits that is written without sign, point and power of ten. -/
def natural? (n : Numeral) : Option Nat :=
  if n.negative ∨ n.fraction.isSome ∨ n.exponent.isSome then none
  else if value n.whole < UInt64.size then some (value n.whole)
  else none

end Numeral

end RunAudit.Json
