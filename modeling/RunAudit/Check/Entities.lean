import RunAudit.Report.Finding
import RunAudit.Snapshot.Entity
import RunAudit.Text.Pieces

/-!
# Agreement of expected maps

Every node must end with the same view of the entities of the test application. The first node is
the baseline that all others are compared with. An entity that was deleted or has expired may be
gone on one side.

* `rejectionFindings`: a rejected transaction needs a deleting one in its history.
* `missingFindings`: keys that only one of two nodes has.
* `sharedFindings`: fields that differ between two nodes.
* `findings`: the whole check.
-/

namespace RunAudit.Check.Entities

open Snapshot Text

/-- Whether an entity's latest handled transaction was rejected although nothing deleted it
before. -/
def isUnexplainedRejection (v : ExpectedValue) : Bool :=
  v.handled.any (·.state = .handleRejected) && ! v.history.any (·.type.removesEntity)

/-- The rejections on one node that no deletion explains. -/
def rejectionFindings (node : Nat) (m : ExpectedMap) : List Finding :=
  m.entries.filterMap fun (key, v) =>
    if isUnexplainedRejection v then
      let history := (v.history.map Status.render).getD "none"
      some (.error (s!"Node {node} entity {key.render} was rejected but its history has no "
        ++ s!"delete or expire: {history}"))
    else none

/-- The entries of one map whose keys another lacks. -/
def lacking (present missing : ExpectedMap) : List (EntityKey × ExpectedValue) :=
  present.entries.filter fun (key, _) => ! missing.contains key

/-- Whether the last transaction of an entity took it out of the map. -/
def wasRemoved (v : ExpectedValue) : Bool := v.lastTransaction.any (·.removesEntity)

/-- What is said of the keys that one node has and another lacks. -/
def missingFindings (presentNode : Nat) (present : ExpectedMap) (missingNode : Nat)
    (missing : ExpectedMap) : List Finding :=
  let (removed, lost) := (lacking present missing).partition fun (_, v) => wasRemoved v
  (if removed.isEmpty then []
    else
      [.info (s!"Node {missingNode} lacks {removed.length} removed entities that "
        ++ s!"node {presentNode} still has")])
    ++ (if lost.isEmpty then []
      else
        let keys := bracketed (lost.map fun (key, _) => key.render)
        [.error s!"Node {missingNode} is missing keys that node {presentNode} has: {keys}"])

/-- The fields that must be equal on all nodes, each with its name and the text of its value. -/
def comparedFields :
    List (String × (ExpectedValue → ExpectedValue → Bool) × (ExpectedValue → String)) :=
  [("entityType", fun a b => a.entityType = b.entityType, fun v => v.entityType.name),
   ("isErrored", fun a b => a.isErrored = b.isErrored, fun v => toString v.isErrored),
   ("hash", fun a b => a.hash = b.hash, fun v => describeOption ContentHash.render v.hash),
   ("latestHandledStatus", fun a b => a.handled = b.handled,
    fun v => describeOption Status.describe v.handled),
   ("historyHandledStatus", fun a b => a.history = b.history,
    fun v => describeOption Status.describe v.history)]

/-- What is said of the fields of one entity that differ. -/
def fieldFindings (key : EntityKey) (expected : ExpectedValue) (node : Nat)
    (actual : ExpectedValue) : List Finding :=
  comparedFields.filterMap fun (name, same, describe) =>
    if same expected actual then none
    else
      some (.error (s!"Entity {key.render} {name} differs: node 0 has {describe expected}, "
        ++ s!"node {node} has {describe actual}"))

/-- What is said of an entity that is errored on both nodes. -/
def erroredFindings (key : EntityKey) (expected : ExpectedValue) (node : Nat)
    (actual : ExpectedValue) : List Finding :=
  if expected.isErrored && actual.isErrored then
    [.warning (s!"Entity {key.render} is errored on node 0 ({expected.diagnosis}) and "
      ++ s!"node {node} ({actual.diagnosis})")]
  else []

/-- What is said of the keys that both nodes have. -/
def sharedFindings (baseline : ExpectedMap) (node : Nat) (m : ExpectedMap) : List Finding :=
  baseline.entries.flatMap fun (key, expected) =>
    match m.get? key with
    | none => []
    | some actual =>
      fieldFindings key expected node actual ++ erroredFindings key expected node actual

/-- A node on its own: its map is there and its rejections are explained. -/
def ownFindings (node : Nat) : Option ExpectedMap → List Finding
  | none => [.error s!"Node {node} expected map is missing"]
  | some m => rejectionFindings node m

/-- A node against the baseline. -/
def againstBaseline (baseline : ExpectedMap) (node : Nat) : Option ExpectedMap → List Finding
  | none => []
  | some m =>
    missingFindings 0 baseline node m ++ missingFindings node m 0 baseline
      ++ sharedFindings baseline node m

/-- The whole check. Without a baseline nothing is compared. -/
def findings (maps : List (Option ExpectedMap)) : List Finding :=
  (maps.mapIdx ownFindings).flatten ++
    match maps with
    | some baseline :: others =>
      (others.mapIdx fun i m => againstBaseline baseline (i + 1) m).flatten
    | _ => []

end RunAudit.Check.Entities
