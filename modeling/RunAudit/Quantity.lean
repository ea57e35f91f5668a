import RunAudit.Decimal.Text

/-!
# Numbers that metrics are computed in

What a check does with the samples of a metric is written once for every kind of number. A run is
audited in doubles; the same arithmetic on rationals is what theorems speak of.

* `Quantity`: a kind of number.
* `Quantity.greatest`, `Quantity.least`, `Quantity.total`: the extremes and the sum of a list that
  is not empty.
-/

namespace RunAudit

open Decimal

/-- A kind of number that metrics can be computed in. -/
class Quantity (α : Type) extends Add α, Sub α, Mul α, Div α, LT α, LE α, OfScientific α where
  decidableLT : DecidableLT α
  decidableLE : DecidableLE α
  ofNat : Nat → α
  abs : α → α
  /-- The larger of two numbers. A number wins against what is no number. -/
  larger : α → α → α
  /-- The smaller of two numbers. A number wins against what is no number. -/
  smaller : α → α → α
  /-- The number that a literal spells, if it is finite. -/
  ofLiteral? : Literal → Option α
  /-- A number with a count of places. -/
  render : (places : Nat) → α → String

namespace Quantity

variable {α : Type} [Quantity α]

instance : DecidableLT α := decidableLT
instance : DecidableLE α := decidableLE

/-- A list with an operation put between its items from left to right; none if it is empty. -/
def reduce (op : α → α → α) : List α → Option α
  | [] => none
  | x :: xs => some (xs.foldl op x)

/-- The largest number of a list. -/
def greatest (xs : List α) : Option α := reduce larger xs

/-- The smallest number of a list. -/
def least (xs : List α) : Option α := reduce smaller xs

/-- The sum of a list, added up from left to right. -/
def total (xs : List α) : Option α := reduce (· + ·) xs

end Quantity

/-- Doubles. Of two zeros with different signs, `larger` and `smaller` keep the second. -/
instance : Quantity Float where
  decidableLT := inferInstance
  decidableLE := inferInstance
  ofNat n := (Literal.finite false n 0).toFloat
  abs := Float.abs
  larger x y := if y < x || y.isNaN then x else y
  smaller x y := if x < y || y.isNaN then x else y
  ofLiteral? l := if l.toFloat.isFinite then some l.toFloat else none
  render := renderFixed

/-- Rationals, which compute without rounding. -/
instance : Quantity Rat where
  decidableLT := inferInstance
  decidableLE := inferInstance
  ofNat n := n
  abs x := if x < 0 then -x else x
  larger x y := if x < y then y else x
  smaller x y := if y < x then y else x
  ofLiteral?
    | .finite negative digits exponent =>
      let size : Rat := (digits * tenTo exponent.toNat : Nat) / (tenTo (-exponent).toNat : Nat)
      some (if negative then -size else size)
    | _ => none
  render places x := signed (x < 0) (fixed places x.num.natAbs x.den)

end RunAudit
