import RunAudit.Metrics.Csv
import RunAudit.Quantity

/-!
# Metrics of a node

A table has one column of samples for each metric. Records may be shorter than the header, so
columns differ in length; fields beyond the header are dropped.

* `Table.addRecord`, `Table.ofRecords`: a table filled record by record, a ragged transposition.
* `Table.column?`: the right-most column with a name.
* `sampleValue`: the number that a sample spells, zero if it spells none.
* `Column.max`, `Column.minNot0`, `Column.average`, `Column.last`: what a check asks of a column.
-/

namespace RunAudit.Metrics

open RunAudit.Decimal RunAudit.Text

/-- The samples of one metric, in the order they were taken. -/
structure Column where
  name : String
  samples : List String
  deriving DecidableEq

/-- The metrics of one node. -/
structure Table where
  columns : List Column
  deriving DecidableEq

variable {α : Type} [Quantity α]

/-- The number that a sample spells. One that spells no finite number counts as zero. -/
def sampleValue (sample : String) : α :=
  ((Literal.read? (trim sample.toList)).bind Quantity.ofLiteral?).getD (Quantity.ofNat 0)

namespace Column

/-- The samples as numbers. -/
def values (c : Column) : List α := c.samples.map sampleValue

/-- The largest sample, or zero if there is none. -/
def max (c : Column) : α := (Quantity.greatest c.values).getD (Quantity.ofNat 0)

/-- The smallest sample above zero, or zero if there is none. Many metrics are zero until they are
first measured. -/
def minNot0 (c : Column) : α :=
  (Quantity.least (c.values.filter fun x => decide (Quantity.ofNat 0 < x))).getD
    (Quantity.ofNat 0)

/-- The mean of the samples, or zero if there is none. -/
def average (c : Column) : α :=
  match Quantity.total (c.values (α := α)) with
  | some sum => sum / Quantity.ofNat c.samples.length
  | none => Quantity.ofNat 0

/-- The last sample, or zero if there is none. -/
def last (c : Column) : α := (c.values.getLast?).getD (Quantity.ofNat 0)

end Column

namespace Table

/-- Columns with one more record. Each field goes to the end of the column at its place. Fields
beyond the last column are dropped, and columns beyond the last field stay as they are. -/
def addRecord {β : Type} : List (Array β) → List β → List (Array β)
  | column :: columns, field :: fields => column.push field :: addRecord columns fields
  | columns, _ => columns

/-- What some records put into a number of columns. -/
def columnsOf {β : Type} (width : Nat) (records : List (List β)) : List (List β) :=
  (records.foldl addRecord (.replicate width #[])).map Array.toList

/-- The table with the given header, filled record by record. -/
def ofRecords (header : List String) (records : List (List String)) : Table :=
  ⟨List.zipWith Column.mk header (columnsOf header.length records)⟩

/-- The table that a text holds; none if a field is not UTF-8. A text without records has no
columns. -/
def read? (bytes : List UInt8) : Option Table :=
  (readRecords? bytes).map fun
    | [] => ⟨[]⟩
    | header :: records => ofRecords header records

/-- The column of a metric. Of several with one name, the right-most. -/
def column? (t : Table) (name : String) : Option Column :=
  t.columns.reverse.find? (·.name == name)

end Table

end RunAudit.Metrics
