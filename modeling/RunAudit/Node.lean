import RunAudit.Log.Cursor
import RunAudit.Metrics.Table
import RunAudit.Report.Finding

/-!
# Nodes

What one node of an experiment leaves behind, as far as checks read it front to back: its log, its
metrics, its standard output and the log of the client that ran next to it. Any of them may be
missing. Nodes come in a list, and the place of a node there is its number.

* `Node.ofBytes`: a node from the contents of its files.
* `Node.auditLog`: a check of the log of a node, where a missing log is an error.
* `seek`, `sweep`: steps of a check through a log.
-/

namespace RunAudit

open Log

/-- What one node leaves behind. -/
structure Node where
  log : Option Cursor := none
  metrics : Option Metrics.Table := none
  stdout : Option Cursor := none
  client : Option Cursor := none

/-- The failure that a reading error of a log amounts to. -/
def Failure.ofReadError : ReadError → Failure
  | .undecodable => .unreadable .undecodable

variable {α : Type}

/-- On to the next entry of a log with a wanted marker. -/
def seek (wanted : Marker → Bool) (c : Cursor) : Audit Cursor (Option Entry) :=
  match c.find wanted with
  | (.ok e, c) => .done [] c e
  | (.error e, c) => ⟨[], c, .error (.ofReadError e)⟩

/-- On to the end of a log, with findings for the entries that have a wanted marker. What is said of
the entries before a reading error is kept. -/
def sweep (wanted : Marker → Bool) (report : List Entry → List Finding) (c : Cursor) :
    Audit Cursor (List Entry) :=
  let scan := c.collect wanted
  ⟨report scan.found, scan.cursor,
    match scan.failure with
    | none => .ok scan.found
    | some e => .error (.ofReadError e)⟩

/-- On to the end of a log. -/
def finish (c : Cursor) : Audit Cursor (List Entry) := sweep (fun _ => false) (fun _ => []) c

/-- What a check says of a node without a log. -/
def logMissing (validator : String) (node : Nat) : List Finding :=
  [.event (.logMissing validator node), .error s!"Node {node} log is missing or unreadable"]

namespace Node

/-- A node from the contents of its files. Metrics are read at once; logs only by the checks that
need them. -/
def ofBytes (wording : Wording) (log metrics stdout client : Option (List UInt8)) :
    Except Failure Node := do
  let metrics ← match metrics with
    | none => pure none
    | some bytes =>
      match Metrics.Table.read? bytes with
      | some table => pure (some table)
      | none => throw (.metrics (wording.metrics bytes))
  return {
    log := log.map (Cursor.ofBytes .platform)
    metrics
    stdout := stdout.map (Cursor.ofBytes .platform)
    client := client.map (Cursor.ofBytes .client) }

/-- A check of the log of a node. Without a log its result is `missing`. -/
def auditLog (validator : String) (missing : α) (check : Nat → Cursor → Audit Cursor α)
    (place : Nat) (node : Node) : Audit Node α :=
  match node.log with
  | none => .done (logMissing validator place) node missing
  | some c => (check place c).within fun c => { node with log := some c }

/-- The column of a metric, if the node has metrics and they have such a column. -/
def column? (node : Node) (name : String) : Option Metrics.Column :=
  node.metrics.bind (·.column? name)

end Node

end RunAudit
