import RunAudit.Decimal.Double

/-!
# Doubles as text

Doubles are written positionally, never with a power of ten, in one of two ways: with the fewest
digits that read back as the same double, or with a fixed number of places.

* `shortest`: the fewest digits that lie nearer to a double than to any other, and of these the
  nearest; of two equally near, the larger.
* `renderFloat`: a double by its shortest digits.
* `renderFixed`: a double with a number of places, its exact value rounded with ties to even.
-/

namespace RunAudit.Decimal

/-- The number `digits · 10 ^ exponent`. -/
def positional (digits : Nat) (exponent : Int) : String :=
  let ds := Nat.toDigits 10 digits
  if 0 ≤ exponent then .ofList (ds ++ List.replicate exponent.toNat '0')
  else
    let places := (-exponent).toNat
    let ds := List.replicate (places + 1 - ds.length) '0' ++ ds
    .ofList (ds.take (ds.length - places) ++ '.' :: ds.drop (ds.length - places))

/-- The numbers that read back as one double: those between two bounds over a common
denominator, the bounds included or not. -/
structure Neighbourhood where
  low : Nat
  value : Nat
  high : Nat
  den : Nat
  closed : Bool

/-- The numbers nearest to a positive double. Half way to a neighbour belongs to the even mantissa.
Below a power of two, doubles lie twice as dense. -/
def Double.neighbourhood (x : Double) : Neighbourhood :=
  let below := if x.mantissa = leadingBit ∧ leastExponent < x.exponent then 1 else 2
  let scale := 1 <<< (x.exponent - 2).toNat
  { low := (4 * x.mantissa - below) * scale
    value := 4 * x.mantissa * scale
    high := (4 * x.mantissa + 2) * scale
    den := 1 <<< (2 - x.exponent).toNat
    closed := x.mantissa % 2 = 0 }

namespace Neighbourhood

/-- The exponent `k` for which the value lies from `10 ^ (k - 1)` up to below `10 ^ k`. -/
def magnitude (n : Neighbourhood) : Int :=
  if n.den ≤ n.value then (Nat.toDigits 10 (n.value / n.den)).length
  else 1 - (Nat.toDigits 10 ((n.den - 1) / n.value)).length

/-- The multiple of `10 ^ exponent` nearest to the value, if one lies between the bounds. Of two
equally near, the larger. -/
def onGrid? (n : Neighbourhood) (exponent : Int) : Option Nat :=
  let step := tenTo exponent.toNat * n.den
  let fine := tenTo (-exponent).toNat
  let inside := fun point =>
    if n.closed then n.low * fine ≤ point ∧ point ≤ n.high * fine
    else n.low * fine < point ∧ point < n.high * fine
  let floor := n.value * fine / step
  if inside ((floor + 1) * step) then
    if inside (floor * step)
        ∧ n.value * fine - floor * step < (floor + 1) * step - n.value * fine then some floor
    else some (floor + 1)
  else if inside (floor * step) then some floor
  else none

end Neighbourhood

/-- The fewest digits, and the power of ten they stand for, that read back as a positive double.
Seventeen digits always do. -/
def shortest (x : Double) : Nat × Int :=
  let n := x.neighbourhood
  let grids := (List.range 17).map fun (places : Nat) => n.magnitude - 1 - (places : Int)
  match grids.findSome? fun exponent => (n.onGrid? exponent).map (·, exponent) with
  | some (digits, exponent) =>
    if digits % 10 = 0 then (digits / 10, exponent + 1) else (digits, exponent)
  | none => (0, 0)

/-- A sign in front of a text. -/
def signed (negative : Bool) (text : String) : String := if negative then "-" ++ text else text

/-- The words for what is no finite number. -/
def nonFinite (x : Float) : String :=
  if x.isNaN then "NaN" else signed (x < 0.0) "inf"

/-- A double by its shortest digits. -/
def renderFloat (x : Float) : String :=
  match Double.ofFloat? x with
  | none => nonFinite x
  | some x =>
    signed x.negative <|
      if x.mantissa = 0 then "0"
      else
        let (digits, exponent) := shortest x
        positional digits exponent

/-- A fraction with a number of places, rounded with ties to even. -/
def fixed (places : Nat) (num den : Nat) : String :=
  positional (roundDiv (num * tenTo places) den) (-(places : Int))

/-- A double with a number of places. The sign of zero is kept. -/
def renderFixed (places : Nat) (x : Float) : String :=
  match Double.ofFloat? x with
  | none => nonFinite x
  | some x =>
    signed x.negative <|
      fixed places (x.mantissa <<< x.exponent.toNat) (1 <<< (-x.exponent).toNat)

end RunAudit.Decimal
