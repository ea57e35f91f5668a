import RunAudit.Check.Exceptions

/-!
# Rounds of saved states

Nodes that go down save a state and come back from it, and log the round of each. The numbers of
rounds end the messages of the entries.

* `Restart.audit`: every node loads the states that it froze, in the same order.
* `Recovery.audit`: all nodes recover the same round and then finish.
-/

namespace RunAudit.Check

open Log Text

/-- Numbers as a report lists them. -/
def listed (numbers : List Nat) : String := bracketed (numbers.map toString)

namespace Restart

/-- Whether an entry tells of a frozen or a loaded state. -/
def isRound : Marker → Bool
  | .freezeStateSaved | .loadRestart => true
  | _ => false

/-- What is said of an entry that should end with a round and does not. -/
def roundFindings (node : Nat) (e : Entry) : List Finding :=
  if e.trailingNumber?.isSome then []
  else [.error s!"Node {node} logged {e.marker.name} without a round number: {e.text}"]

/-- The rounds of the entries with one marker, in the order of the log. -/
def roundsOf (marker : Marker) (entries : List Entry) : List Nat :=
  (entries.filter (·.marker = marker)).filterMap (·.trailingNumber?)

/-- What is said of the rounds that a node froze and loaded. -/
def compareFindings (node : Nat) (frozen loaded : List Nat) : List Finding :=
  if frozen.isEmpty then [.error s!"Node {node} never saved a freeze state"]
  else if frozen ≠ loaded then
    [.error (s!"Node {node} froze at rounds {listed frozen} but "
      ++ s!"restarted from rounds {listed loaded}")]
  else [.info s!"Node {node} restarted from its frozen rounds {listed frozen}"]

/-- The log of one node. -/
def auditLog (node : Nat) (c : Cursor) : Audit Cursor Unit :=
  (sweep isRound (List.flatMap (roundFindings node)) c).conclude fun c found =>
    compareFindings node (roundsOf .freezeStateSaved found) (roundsOf .loadRestart found)
      ++ exceptionFindings node "log" judgeRestart c.exceptions

/-- Every node loads the states that it froze, in the same order. -/
def audit (validator : String) (nodes : List Node) : Audit (List Node) Unit :=
  (Audit.each (Node.auditLog validator () auditLog) nodes).conclude fun _ _ => []

end Restart

namespace Recovery

/-- What is said of the first state that a node saved. -/
def savedFindings (node : Nat) : Option Entry → List Finding
  | none => [.error s!"Node {node} never saved a recovered state"]
  | some e =>
    if e.trailingNumber?.isSome then []
    else [.error s!"Node {node} saved its recovered state without a round number: {e.text}"]

/-- What is said of the end of the test application after the recovery. -/
def finishFindings (node : Nat) (finished : Option Entry) : List Finding :=
  if finished.isSome then [] else [.error s!"Node {node} did not finish after recovering"]

/-- The log of one node, which results in the round that it recovered. -/
def auditLog (node : Nat) (c : Cursor) : Audit Cursor (Option Nat) :=
  (seek (· == .stateSaved) c).andThen fun c saved =>
  (Audit.done (savedFindings node saved) c ()).andThen fun c _ =>
  (seek (· == .testAppFinish) c).andThen fun c finished =>
  (Audit.done (finishFindings node finished) c ()).andThen fun c _ =>
  (finish c).andThen fun c _ =>
  .done (exceptionFindings node "log" judgeRestart c.exceptions) c
    (saved.bind (·.trailingNumber?))

/-- The nodes that recovered each round. -/
def nodesByRound (rounds : List (Option Nat)) : Keyed Nat (List Nat) :=
  (rounds.mapIdx fun node round => round.map (·, node)).foldl
    (fun m found => match found with
      | some (round, node) => m.alter round fun nodes => nodes.getD [] ++ [node]
      | none => m) .empty

/-- What is said of the rounds that the nodes recovered. -/
def agreementFindings (rounds : List (Option Nat)) : List Finding :=
  match (nodesByRound rounds).entries with
  | [] => []
  | [(round, _)] => [.info s!"All nodes recovered round {round}"]
  | several =>
    let groups := several.map fun (round, nodes) => s!"{round}: {listed nodes}"
    [.error ("Nodes recovered different rounds (round -> nodes): \x7b"
      ++ String.intercalate ", " groups ++ "\x7d")]

/-- All nodes recover the same round and then finish. -/
def audit (validator : String) (nodes : List Node) : Audit (List Node) Unit :=
  (Audit.each (Node.auditLog validator none auditLog) nodes).conclude fun _ rounds =>
    agreementFindings rounds

end Recovery

end RunAudit.Check
