import RunAudit.Text.Blank

/-!
# Records of comma-separated values

A record is a line of fields between commas. A field that starts with a quotation mark reaches to
the closing one, over commas and line breaks, and a doubled mark inside stands for one. Blank
lines are skipped, and so are comments, which start with `#` at the start of a record. Records
need not be equally long.

* `records`: the fields of each record, as bytes.
* `readRecords?`: the same as texts without blanks around them; none if any of them is not UTF-8.
-/

namespace RunAudit.Metrics

open RunAudit.Text

/-- Where in a record a byte stands. -/
inductive Place where
  | recordStart
  | comment
  | fieldStart
  | field
  | quoted
  /-- Behind a quotation mark in a quoted field: its end, or the first half of a doubled mark. -/
  | mark
  deriving DecidableEq, Repr

/-- Either half of a line break ends a record. -/
def isBreak (b : UInt8) : Bool := b == 10 || b == 13

/-- The records from a place on, with what has been read of the current field and record. A comment
that the end of the text cuts off counts as a record with one empty field. -/
def recordsFrom (place : Place) (field : List UInt8) (record : List (List UInt8)) :
    List UInt8 → List (List (List UInt8))
  | [] =>
    match place with
    | .recordStart => []
    | _ => [record ++ [field]]
  | b :: rest =>
    match place with
    | .recordStart =>
      if isBreak b then recordsFrom .recordStart [] [] rest
      else if b = 35 then recordsFrom .comment [] [] rest
      else if b = 34 then recordsFrom .quoted [] [] rest
      else if b = 44 then recordsFrom .fieldStart [] [[]] rest
      else recordsFrom .field [b] [] rest
    | .comment =>
      if b = 10 then recordsFrom .recordStart [] [] rest else recordsFrom .comment [] [] rest
    | .quoted =>
      if b = 34 then recordsFrom .mark field record rest
      else recordsFrom .quoted (field ++ [b]) record rest
    | .fieldStart | .field | .mark =>
      if b = 44 then recordsFrom .fieldStart [] (record ++ [field]) rest
      else if isBreak b then (record ++ [field]) :: recordsFrom .recordStart [] [] rest
      else if b = 34 ∧ place = .fieldStart then recordsFrom .quoted field record rest
      else if b = 34 ∧ place = .mark then recordsFrom .quoted (field ++ [b]) record rest
      else recordsFrom .field (field ++ [b]) record rest

/-- The mark that a text in UTF-8 may start with. -/
def byteOrderMark : List UInt8 := [0xEF, 0xBB, 0xBF]

/-- The records of a text. -/
def records (bytes : List UInt8) : List (List (List UInt8)) :=
  let bytes := if byteOrderMark.isPrefixOf bytes then bytes.drop 3 else bytes
  recordsFrom .recordStart [] [] bytes

/-- A field as text, without the blanks around it. -/
def readField? (bytes : List UInt8) : Option String :=
  (String.fromUTF8? ⟨bytes.toArray⟩).map trimmed

/-- The records of a text with their fields decoded. -/
def readRecords? (bytes : List UInt8) : Option (List (List String)) :=
  (records bytes).mapM fun record => record.mapM readField?

end RunAudit.Metrics
