import RunAudit.Decimal.Digits

/-!
# Number literals

What a sample of a metric may spell: digits with a point anywhere among them and a power of ten,
`1.5e-3`, or one of the words for infinity and for no number, in any case. A sign may precede
either.

* `Literal.read?`: the literal that is a whole text.
-/

namespace RunAudit.Decimal

/-- A number literal. -/
inductive Literal where
  /-- The digits times a power of ten. The sign is kept apart, for it also stands before zero. -/
  | finite (negative : Bool) (digits : Nat) (exponent : Int)
  | infinite (negative : Bool)
  | notANumber
  deriving DecidableEq, Repr

/-- A sign, if there is one, and the rest: whether the sign is a minus. -/
def readSign : List Char → Bool × List Char
  | '-' :: rest => (true, rest)
  | '+' :: rest => (false, rest)
  | s => (false, s)

/-- The power of ten at the end of a literal; none at all stands for the power zero. -/
def readExponent : List Char → Option Int
  | [] => some 0
  | c :: rest =>
    if c = 'e' ∨ c = 'E' then
      let (negative, digits) := readSign rest
      if digits.isEmpty ∨ ¬ digits.all (·.isDigit) then none
      else if negative then some (-(value digits : Int))
      else some (value digits)
    else none

namespace Literal

/-- A literal without its sign that spells a finite number. -/
def readFinite (negative : Bool) (s : List Char) : Option Literal := do
  let whole := s.takeWhile (·.isDigit)
  let (fraction, rest) := match s.dropWhile (·.isDigit) with
    | '.' :: rest => (rest.takeWhile (·.isDigit), rest.dropWhile (·.isDigit))
    | rest => ([], rest)
  if (whole ++ fraction).isEmpty then none
  else return .finite negative (value (whole ++ fraction)) ((← readExponent rest) - fraction.length)

/-- The literal that a whole text spells. -/
def read? (s : List Char) : Option Literal :=
  let (negative, s) := readSign s
  let word := String.ofList (s.map Char.toLower)
  if word = "inf" ∨ word = "infinity" then some (.infinite negative)
  else if word = "nan" then some .notANumber
  else readFinite negative s

end Literal

end RunAudit.Decimal
