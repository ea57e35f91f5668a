import RunAudit.Text.Pieces
import RunAudit.Time.Text

/-!
# Signature files

The name of a signature file is the instant at which the file it signs was started, with
underscores for colons, and an extension: `2024-03-01T10_15_30.123456Z.evts_sig`.

* `SigFile.parse`: the signature file with a name.
* `SigFile.le`: signature files are ordered by instant, then kind, then name.
* `SigFile.sort`: a list in that order.
-/

namespace RunAudit.EventStream

open RunAudit.Text RunAudit.Time

/-- What a signature file signs. -/
inductive SigKind where
  /-- A file of events. -/
  | event
  /-- A file of records. -/
  | record
  deriving DecidableEq, Repr

/-- The kind of signature file with an extension. -/
def SigKind.ofExtension? (extension : String) : Option SigKind :=
  if extension = "evts_sig" then some .event
  else if extension = "rcd_sig" then some .record
  else none

/-- Signatures of events come before those of records. -/
def SigKind.rank : SigKind → Nat
  | event => 0
  | record => 1

/-- The name of a signature file and what it says. -/
structure SigFile where
  name : String
  created : Instant
  kind : SigKind
  deriving DecidableEq

namespace SigFile

/-- The instant in the stem of a name. Any number of `Z` may end it. -/
def instant? (stem : List Char) : Option Instant :=
  let stem := (stem.reverse.dropWhile (· = 'Z')).reverse
  Instant.read? (.mark 'T') (stem.map fun c => if c = '_' then ':' else c)

/-- The signature file with a name, from which blanks around it are taken off. The error is the
name that is none. -/
def parse (name : String) : Except String SigFile :=
  let name := trim name.toList
  let parsed := do
    let (stem, extension) ← splitLast '.' name
    let kind ← SigKind.ofExtension? (.ofList extension)
    let created ← instant? stem
    return { name := .ofList name, created, kind : SigFile }
  match parsed with
  | some file => .ok file
  | none => .error (.ofList name)

/-- The wording for a name that is not one of a signature file. -/
def parseMessage (name : String) : String := "not a signature file name: " ++ name

/-- The order of signature files: by instant, then kind, then name. -/
def le (a b : SigFile) : Bool :=
  if a.created.rank ≠ b.created.rank then a.created.rank < b.created.rank
  else if a.kind.rank ≠ b.kind.rank then a.kind.rank < b.kind.rank
  else a.name ≤ b.name

/-- A list of signature files in their order. -/
def sort (files : List SigFile) : List SigFile := files.mergeSort le

end SigFile

end RunAudit.EventStream
