import RunAudit.Decimal.Literal
import RunAudit.Decimal.Rounding

/-!
# Doubles as fractions

A finite double is a whole number times a power of two. Both directions go through exact
arithmetic on natural numbers.

* `Double.ofFloat?`: the fraction that a finite double is.
* `nearestBits`: the double nearest to a quotient, ties to the even one.
* `Literal.toFloat`: the double nearest to a literal.
-/

namespace RunAudit.Decimal

/-- The value `± mantissa · 2 ^ exponent` of a finite double. -/
structure Double where
  negative : Bool
  mantissa : Nat
  exponent : Int
  deriving DecidableEq, Repr

/-- The exponent of the smallest doubles. -/
def leastExponent : Int := -1074

/-- A mantissa with its leading bit, which the encoding leaves out. -/
def leadingBit : Nat := 1 <<< 52

/-- The bit that a negative number sets. -/
def signBit : Nat := 1 <<< 63

/-- The value of a double; none for infinities and for what is not a number. -/
def Double.ofFloat? (x : Float) : Option Double :=
  let bits := x.toBits.toNat
  let field := bits / leadingBit % 2048
  let fraction := bits % leadingBit
  let negative := signBit ≤ bits
  if field = 2047 then none
  else if field = 0 then some ⟨negative, fraction, leastExponent⟩
  else some ⟨negative, leadingBit + fraction, field - 1 + leastExponent⟩

/-- The encoding of positive infinity. -/
def infinityBits : Nat := 2047 * leadingBit

/-- A quotient divided by a power of two. -/
def scaleDown (num den : Nat) (exponent : Int) : Nat × Nat :=
  (num <<< (-exponent).toNat, den <<< exponent.toNat)

/-- The encoding of the double nearest to `num / den`; of two equally near ones, the one with the
even mantissa, and infinity beyond the largest. -/
def nearestBits (num den : Nat) : Nat :=
  if num = 0 then 0
  else
    let guess : Int := num.log2 - den.log2 - 52
    let (n, d) := scaleDown num den guess
    let exponent := max leastExponent (if n < leadingBit * d then guess - 1 else guess)
    let (n, d) := scaleDown num den exponent
    let mantissa := roundDiv n d
    if mantissa < leadingBit then mantissa
    else min infinityBits ((exponent - leastExponent).toNat * leadingBit + mantissa)

/-- The double with the given sign nearest to `num / den`. -/
def nearest (negative : Bool) (num den : Nat) : Float :=
  .ofBits (.ofNat (nearestBits num den + if negative then signBit else 0))

/-- The double nearest to a literal. Numbers far outside the range of doubles are recognised by
their order of magnitude, so that no large power is ever computed. -/
def Literal.toFloat : Literal → Float
  | .notANumber => 0.0 / 0.0
  | .infinite negative => .ofBits (.ofNat (infinityBits + if negative then signBit else 0))
  | .finite negative digits exponent =>
    let order := (Nat.toDigits 10 digits).length + exponent
    if digits = 0 ∨ order < -400 then nearest negative 0 1
    else if 400 < order then (Literal.infinite negative).toFloat
    else if 0 ≤ exponent then nearest negative (digits * tenTo exponent.toNat) 1
    else nearest negative digits (tenTo (-exponent).toNat)

end RunAudit.Decimal
