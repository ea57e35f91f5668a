import RunAudit.Log.Marker
import RunAudit.Text.Pieces
import RunAudit.Time.Text

/-!
# Entries of a log

A structured line has a date, a time of day, a marker and a message, separated by blanks. Any
other line that is not blank is an entry too, classified by the exceptions that it mentions, and
has no timestamp of its own. A line of a client log may name a suite, in single quotes, before its
message.

* `Entry.parse`: the entry on a line.
* `Entry.continuedBy`: whether the next line belongs to an entry instead of starting its own.
* `Entry.parse_client`: a client line is a platform line with the suite split off.
-/

namespace RunAudit.Log

open RunAudit.Text RunAudit.Time

/-- The two layouts of log lines. -/
inductive Layout where
  /-- Logs and standard output of a node. -/
  | platform
  /-- Logs of a client that runs suites against a node. -/
  | client
  deriving DecidableEq, Repr

/-- One entry of a log, with the lines that continue it. -/
structure Entry where
  timestamp : Option Instant
  marker : Marker
  /-- The suite that a client line names. -/
  suite : Option String := none
  text : String
  /-- The texts of the lines folded into this entry, such as a stack trace. -/
  continuation : List String := []
  deriving DecidableEq

/-- Whether a line has the shape of a line in a stack trace: indented, a cause, or an ellipsis. -/
def isTraceLine (line : String) : Bool :=
  let s := line.toList
  (s.head?.any isBlank) || "Caused by".toList.isPrefixOf s || "...".toList.isPrefixOf (trimStart s)

/-- Whether a word can be a marker: capital letters and underscores only. -/
def isMarkerWord (word : List Char) : Bool := word.all fun c => c.isUpper || c == '_'

/-- The timestamp, the marker and the message of a structured line. -/
def structured? (line : List Char) : Option (Instant × Marker × List Char) := do
  let (date, rest) ← word line
  let (time, rest) ← word rest
  let (tag, rest) ← word rest
  let timestamp ← Instant.read? .blanks (date ++ ' ' :: time)
  if isMarkerWord tag then return (timestamp, .ofName (.ofList tag), trim rest) else none

/-- The marker of a line outside the structured layout. -/
def mentionedException (line : List Char) : Marker :=
  if occursIn "SocketException".toList line then .socketException
  else if occursIn "Exception".toList line then .exception
  else .unstructured

/-- The suite that a message names in front, in single quotes, and the rest of the message. -/
def quotedSuite? : List Char → Option (List Char × List Char)
  | '\'' :: rest => (splitFirst '\'' rest).map fun (suite, message) => (suite, trim message)
  | _ => none

namespace Entry

/-- The entry on a line of a platform log; none on a blank line. -/
def parsePlatform (line : String) : Option Entry :=
  match trimEnd line.toList with
  | [] => none
  | s => some <|
    match structured? s with
    | some (timestamp, marker, message) =>
      { timestamp := some timestamp, marker, text := .ofList message }
    | none => { timestamp := none, marker := mentionedException s, text := .ofList s }

/-- An entry with the suite its message names split off, and unchanged if it names none. -/
def withSuite (e : Entry) : Entry :=
  match quotedSuite? e.text.toList with
  | some (suite, message) => { e with suite := some (.ofList suite), text := .ofList message }
  | none => e

/-- The entry on a line; none on a blank line. -/
def parse (layout : Layout) (line : String) : Option Entry :=
  match layout with
  | .platform => parsePlatform line
  | .client => (parsePlatform line).map withSuite

/-- Whether an entry is collected as an exception. -/
def isException (e : Entry) : Bool := e.marker.isException

/-- The number that ends the message, as in "about to be saved for round 19". -/
def trailingNumber? (e : Entry) : Option Nat := Decimal.trailing? e.text

/-- An entry without a timestamp takes the one that stands before it in the log. -/
def inherit (e : Entry) (timestamp : Instant) : Entry :=
  { e with timestamp := some (e.timestamp.getD timestamp) }

/-- An entry with one more line folded into it. -/
def push (e : Entry) (line : String) : Entry := { e with continuation := e.continuation ++ [line] }

/-- Whether `next`, read right after `e`, belongs to it. A structured line never does. Any other
does if it is shaped like a stack trace, or if it is the first after a structured exception, where
the class of the exception stands. -/
def continuedBy (e next : Entry) : Bool :=
  next.timestamp.isNone &&
    ((e.isException && e.timestamp.isSome && e.continuation.isEmpty) || isTraceLine next.text)

theorem parse_client (line : String) :
    parse .client line = (parse .platform line).map withSuite := rfl

end Entry

end RunAudit.Log
