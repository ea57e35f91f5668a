import RunAudit.Decimal.Digits
import RunAudit.Text.Blank
import RunAudit.Time.Calendar

/-!
# Instants as text

An instant is a date, a joint and a time of day: `2024-03-01 10:15:30.123`. Fields are read
leniently: blanks may stand before each number, leading zeros may be missing, a signed year may
have any count of digits, and digits past the nanosecond are dropped.

* `Joint`: what stands between the date and the time of day.
* `Instant.read?`: the instant a text spells.
* `Instant.render`: an instant with all nine digits of its fraction.
* `Date.render`, `Clock.render`: the two halves as a log writes them.
-/

namespace RunAudit.Time

open RunAudit.Decimal RunAudit.Text

/-- A number of at most `width` digits, at least one. -/
def readNumber (width : Nat) (s : List Char) : Option (Nat × List Char) :=
  match (s.take width).takeWhile (·.isDigit) with
  | [] => none
  | digits => some (value digits, s.drop digits.length)

/-- A number of at most two digits, after blanks. -/
def readPair (s : List Char) : Option (Nat × List Char) := readNumber 2 (trimStart s)

/-- A year: four digits at most, or a sign and any count of them. -/
def readYear (s : List Char) : Option (Int × List Char) :=
  match trimStart s with
  | '-' :: rest => (readNumber rest.length rest).map fun (n, rest) => (-n, rest)
  | '+' :: rest => (readNumber rest.length rest).map fun (n, rest) => (n, rest)
  | s => (readNumber 4 s).map fun (n, rest) => (n, rest)

/-- The character that must come next. -/
def readChar (c : Char) : List Char → Option (List Char)
  | [] => none
  | d :: rest => if d = c then some rest else none

/-- A fraction of a second in nanoseconds: nothing, or a point and at least one digit. -/
def readFraction : List Char → Option (Nat × List Char)
  | '.' :: rest =>
    match rest.takeWhile (·.isDigit) with
    | [] => none
    | digits =>
      let kept := digits.take 9
      some (value (kept ++ List.replicate (9 - kept.length) '0'), rest.drop digits.length)
  | s => some (0, s)

/-- What stands between the date and the time of day. -/
inductive Joint where
  /-- Any number of blanks, even none: the day has at most two digits, so its end is known. -/
  | blanks
  /-- One character. -/
  | mark (c : Char)
  deriving DecidableEq, Repr

/-- What follows a joint. -/
def Joint.read? : Joint → List Char → Option (List Char)
  | blanks, s => some (trimStart s)
  | mark c, s => readChar c s

/-- The instant that a text spells, its date and time of day separated by a joint. -/
def Instant.read? (joint : Joint) (s : List Char) : Option Instant := do
  let (year, s) ← readYear s
  let s ← readChar '-' s
  let (month, s) ← readPair s
  let s ← readChar '-' s
  let (day, s) ← readPair s
  let s ← joint.read? s
  let (hour, s) ← readPair s
  let s ← readChar ':' s
  let (minute, s) ← readPair s
  let s ← readChar ':' s
  let (second, s) ← readPair s
  let (nanosecond, s) ← readFraction s
  match s with
  | [] => return ⟨← Date.make? year month day, ← Clock.make? hour minute second nanosecond⟩
  | _ :: _ => none

/-- A year has four digits and no sign from 0 to 9999, and a sign and at least four digits
elsewhere. -/
def renderYear (year : Int) : String :=
  if year < 0 then "-" ++ padded 4 year.natAbs
  else if 9999 < year then "+" ++ padded 4 year.natAbs
  else padded 4 year.natAbs

/-- A date as a log writes it. -/
def Date.render (d : Date) : String :=
  renderYear d.year ++ "-" ++ padded 2 d.month ++ "-" ++ padded 2 d.day

/-- A time of day to the second. -/
def Clock.renderSeconds (c : Clock) : String :=
  padded 2 c.hour ++ ":" ++ padded 2 c.minute ++ ":" ++ padded 2 c.second

/-- A time of day as a log writes it: the fraction has no digits, three, six or nine, the fewest
that lose nothing. -/
def Clock.render (c : Clock) : String :=
  c.renderSeconds ++
    if c.nanosecond = 0 then ""
    else if c.nanosecond % 1000000 = 0 then "." ++ padded 3 (c.nanosecond / 1000000)
    else if c.nanosecond % 1000 = 0 then "." ++ padded 6 (c.nanosecond / 1000)
    else "." ++ padded 9 c.nanosecond

/-- An instant with all nine digits of its fraction. -/
def Instant.render (t : Instant) : String :=
  t.date.render ++ " " ++ t.clock.renderSeconds ++ "." ++ padded 9 t.clock.nanosecond

end RunAudit.Time
