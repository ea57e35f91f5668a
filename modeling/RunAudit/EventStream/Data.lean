import RunAudit.EventStream.SigFile

/-!
# Event streams

What a node leaves behind of the event stream that it wrote: a hash of each event file, one hash
over all of them, and a list of signature files.

* `StreamData.ofLists`: the data from its parts.
* `StreamData.ofTexts`: the data from texts with one item a line.
* `compareLists`: how far two lists agree, up to a tolerance at their end.
-/

namespace RunAudit.EventStream

open RunAudit.Text

/-- The event stream of one node. -/
structure StreamData where
  finalHash : String
  fileHashes : List String
  /-- The signature files in their order. -/
  sigFiles : List SigFile
  /-- The line that says whether recovered events matched those that were written. -/
  recoveredMatch : Option String
  /-- The lines of the list of signature files that name none. -/
  malformed : List String
  deriving DecidableEq

namespace StreamData

/-- The data of a node from its parts, all names of signature files well formed. -/
def ofLists (finalHash : String) (fileHashes : List String) (sigFiles : List SigFile)
    (recoveredMatch : Option String) : StreamData :=
  { finalHash := trimmed finalHash, fileHashes, sigFiles := SigFile.sort sigFiles, recoveredMatch,
    malformed := [] }

/-- The lines of a text without the blanks around them, blank lines left out. -/
def contentLines (s : String) : List String :=
  ((pieces '\n' s.toList).map fun line => String.ofList (trim line)).filter (! ·.isEmpty)

/-- The data of a node from the texts of its files. Names that are not those of signature files
are kept apart. -/
def ofTexts (finalHash fileHashes sigFiles : String) (recoveredMatch : Option String) :
    StreamData :=
  let names := (contentLines sigFiles).map SigFile.parse
  { ofLists finalHash (contentLines fileHashes) (names.filterMap (·.toOption))
      (recoveredMatch.bind fun s => (contentLines s).head?) with
    malformed := names.filterMap fun
      | .error name => some name
      | .ok _ => none }

end StreamData

/-- How far two lists agree. -/
inductive Agreement where
  | identical
  /-- They differ only in length or within the tolerance at the end of the shorter. -/
  | trailingDivergence
  /-- They first differ at a place before that. -/
  | divergesAt (index : Nat)
  deriving DecidableEq, Repr

/-- An agreement with its parts named. -/
def Agreement.describe : Agreement → String
  | identical => "Identical"
  | trailingDivergence => "TrailingDivergence"
  | divergesAt index => "DivergesAt \x7b index: " ++ toString index ++ " \x7d"

/-- The first place at which both lists have items and the items differ. -/
def firstMismatch {α : Type} [DecidableEq α] : List α → List α → Option Nat
  | x :: xs, y :: ys => if x = y then (firstMismatch xs ys).map (· + 1) else some 0
  | _, _ => none

/-- Compares two lists place by place up to the end of the shorter, and tolerates mismatches in
its last `tolerance` places. -/
def compareLists {α : Type} [DecidableEq α] (left right : List α) (tolerance : Nat) : Agreement :=
  match firstMismatch left right with
  | none => if left.length = right.length then .identical else .trailingDivergence
  | some index =>
    if min left.length right.length - tolerance ≤ index then .trailingDivergence
    else .divergesAt index

end RunAudit.EventStream
