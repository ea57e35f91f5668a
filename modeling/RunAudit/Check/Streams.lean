import RunAudit.Report.Finding
import RunAudit.EventStream.Data

/-!
# Agreement of event streams

All nodes see the same events in the same order, so what they leave behind of their event streams
must agree. They are not stopped at the same instant, so the ends may differ.

* `eventFindings`: every node wrote events and hashed them.
* `hashFindings`: neighbouring nodes agree on their hashes.
* `sigFindings`: every node agrees with the first on its signature files.
* `audit`: the whole check.
-/

namespace RunAudit.Check.Streams

open EventStream Text

/-- The number of event files at the end that may differ between two nodes. -/
def hashTolerance : Nat := 1

/-- The number of signature files at the end that may differ between two nodes. They are written
before the hash of the file they sign is final. -/
def sigTolerance : Nat := 2

/-- What the recovery tool logs if recovered events are those that were written. -/
def recoveredEventsMatch : String := "Recovered events match original events"

/-- Whether a node wrote events and hashed them. -/
def eventFindings (node : Nat) : Option StreamData → List Finding
  | none => [.error s!"Node {node} streaming data is missing"]
  | some d =>
    match d.fileHashes.length, d.finalHash.isEmpty with
    | 0, true => [.error s!"Node {node} did not write any events"]
    | 0, false => [.error s!"Node {node} has final hash {d.finalHash} but no event files"]
    | count, true => [.error s!"Node {node} wrote {count} event files but did not hash them"]
    | _, false => []

/-- Whether two neighbouring nodes agree on their hashes. -/
def pairFindings (node : Nat) (previous current : StreamData) : List Finding :=
  if previous.finalHash.isEmpty || current.finalHash.isEmpty
      || previous.finalHash == current.finalHash then []
  else
    match compareLists previous.fileHashes current.fileHashes hashTolerance with
    | .identical =>
      [.error (s!"Nodes {node - 1} and {node} have the same event file hashes but "
        ++ "different final hashes")]
    | .trailingDivergence =>
      [.info (s!"Nodes {node - 1} and {node} have different final hashes because of "
        ++ "trailing divergence in their last event file")]
    | .divergesAt index =>
      let left := previous.fileHashes.getD index ""
      let right := current.fileHashes.getD index ""
      [.error (s!"Nodes {node - 1} and {node} have different event file hashes at "
        ++ s!"position {index}: {left} vs {right}")]

/-- The findings for each node and the one before it, of those that have data. -/
def hashFindings (node : Nat) : List (Option StreamData) → List Finding
  | some previous :: some current :: later =>
    pairFindings node previous current ++ hashFindings (node + 1) (some current :: later)
  | _ :: later => hashFindings (node + 1) later
  | [] => []

/-- The name of a signature file at a place of a list. -/
def sigName (files : List SigFile) (index : Nat) : String := ((files[index]?).map (·.name)).getD ""

/-- Whether a node agrees with the first one on its signature files. -/
def sigFindings (reference : StreamData) (node : Nat) : Option StreamData → List Finding
  | none => []
  | some d =>
    let mine := d.sigFiles.length
    let theirs := reference.sigFiles.length
    if sigTolerance < max mine theirs - min mine theirs then
      [.error s!"Node {node} has {mine} signature files but node 0 has {theirs}"]
    else
      match compareLists reference.sigFiles d.sigFiles sigTolerance with
      | .identical => []
      | .trailingDivergence =>
        [.info (s!"Node {node} signature files diverge from node 0 only in the last "
          ++ s!"{sigTolerance} files")]
      | .divergesAt index =>
        [.error (s!"Node {node} signature file {sigName d.sigFiles index} does not match "
          ++ s!"node 0 signature file {sigName reference.sigFiles index}")]

/-- Whether every line of a node's list of signature files names one. -/
def malformedFindings (node : Nat) : Option StreamData → List Finding
  | none => []
  | some d =>
    if d.malformed.isEmpty then []
    else
      let names := String.intercalate ", " d.malformed
      [.error s!"Node {node} has {d.malformed.length} malformed signature file names: {names}"]

/-- Whether the events that a node recovered match those that it wrote. -/
def recoveredFindings (recovered : Bool) (node : Nat) : Option StreamData → List Finding
  | none => []
  | some d =>
    match d.recoveredMatch with
    | some line =>
      if occursIn recoveredEventsMatch.toList line.toList then
        [.info s!"Node {node} recovered events match the original stream"]
      else [.error s!"Node {node} recovered events do not match the original stream: {line}"]
    | none =>
      if recovered then
        [.error s!"Node {node} did not report whether its recovered events match"]
      else []

/-- The findings for all nodes but the first, compared with the first. -/
def referenceFindings : List (Option StreamData) → List Finding
  | some reference :: others =>
    (others.mapIdx fun i d => sigFindings reference (i + 1) d).flatten
  | _ => []

/-- The findings for a list of nodes. -/
def findings (recovered : Bool) (nodes : List (Option StreamData)) : List Finding :=
  (nodes.mapIdx eventFindings).flatten
    ++ hashFindings 1 nodes
    ++ referenceFindings nodes
    ++ (nodes.mapIdx malformedFindings).flatten
    ++ (nodes.mapIdx (recoveredFindings recovered)).flatten

/-- The whole check. It cannot run without nodes. -/
def audit (recovered : Bool) (nodes : List (Option StreamData)) :
    Audit (List (Option StreamData)) Unit :=
  if nodes.isEmpty then ⟨[], nodes, .error (.missingInput "streaming server data")⟩
  else .done (findings recovered nodes) nodes ()

end RunAudit.Check.Streams
