import RunAudit.Text.Offsets

/-!
# Decimal digits

* `value`: the number a run of digits spells.
* `tenTo`: the powers of ten.
* `padded`: a number written with at least a given count of digits.
* `natural64?`: the number of 64 bits that a text spells.
* `trailing?`: the number that ends a text.
-/

namespace RunAudit.Decimal

open RunAudit.Text

/-- The value of one ASCII digit. -/
def digitValue (c : Char) : Nat := c.toNat - '0'.toNat

/-- The number that a run of digits spells. -/
def value (digits : List Char) : Nat := digits.foldl (fun n c => 10 * n + digitValue c) 0

/-- A power of ten: what a digit is worth with so many digits behind it. -/
def tenTo (places : Nat) : Nat := Nat.pow 10 places

@[simp] theorem tenTo_zero : tenTo 0 = 1 := rfl

@[simp] theorem tenTo_succ (places : Nat) : tenTo (places + 1) = tenTo places * 10 := rfl

/-- A number with zeros in front, up to `width` digits. -/
def padded (width n : Nat) : String :=
  let digits := Nat.toDigits 10 n
  .ofList (List.replicate (width - digits.length) '0' ++ digits)

/-- A number carried on by digits; none as soon as it does not fit in 64 bits, or where something
else than a digit stands. -/
def carryOn? (n : Nat) : List Char → Option Nat
  | [] => some n
  | c :: rest =>
    let longer := 10 * n + digitValue c
    if c.isDigit ∧ longer < UInt64.size then carryOn? longer rest else none

/-- A text without the plus sign that may start it. -/
def dropPlus : List Char → List Char
  | '+' :: rest => rest
  | s => s

/-- The number of 64 bits that a whole text spells: digits, at least one, behind a plus sign or
none. -/
def natural64? (s : List Char) : Option Nat :=
  if (dropPlus s).isEmpty then none else carryOn? 0 (dropPlus s)

/-- A text up to its last digit. -/
def upToDigit (text : String) : String :=
  .ofList (text.toList.reverse.dropWhile (! ·.isDigit)).reverse

/-- The byte at which the digits that end a text start: the characters are gone through from the
last one back, as far as digits go. None if the text does not end with a digit. -/
def digitsStart? (text : String) : Option String.Pos.Raw :=
  ((charOffsets 0 text.toList).reverse.takeWhile (·.2.isDigit)).getLast?.map (·.1)

/-- The number that the last run of digits spells; none if there is no digit or the number does
not fit in 64 bits. -/
def trailing? (text : String) : Option Nat := do
  let upTo := upToDigit text
  let start ← digitsStart? upTo
  let digits ← textFrom? upTo start
  natural64? digits.toList

end RunAudit.Decimal
