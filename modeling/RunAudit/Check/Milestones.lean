import RunAudit.Check.Exceptions

/-!
# Milestones in logs

Checks that look for entries with particular markers and nothing else.

* `Migration.audit`: every node goes through the four stages of the migration, in order.
* `Compensation.audit`: how nodes dealt with events that were too old to use.
-/

namespace RunAudit.Check

open Log

namespace Migration

/-- The stages of the migration, in the order that a node goes through them. -/
def stages : List Marker :=
  [.migrationStartLoad, .migrationEndLoad, .migrationStartProcess, .migrationEndProcess]

/-- Looks for stages one behind the other. A stage that is logged too early is not found. -/
def auditStages (node : Nat) (c : Cursor) : List Marker → Audit Cursor Unit
  | [] => .done [.info s!"Node {node} completed the migration"] c ()
  | stage :: later =>
    (seek (· == stage) c).andThen fun c reached =>
      if reached.isSome then auditStages node c later
      else .done [.error s!"Node {node} never reached migration stage {stage.name}"] c ()

/-- Every node goes through the four stages, in order. -/
def audit (validator : String) (nodes : List Node) : Audit (List Node) Unit :=
  (Audit.each (Node.auditLog validator () fun node c => auditStages node c stages)
    nodes).conclude fun _ _ => []

end Migration

namespace Compensation

/-- Whether an entry tells of events that were synced again because they were too old. -/
def isCompensation : Marker → Bool
  | .staleCompensationSuccess | .staleCompensationFailure => true
  | _ => false

/-- A success is legal but shows that the node fell behind; after a failure it cannot go on. -/
def findings (node : Nat) (e : Entry) : List Finding :=
  if e.marker = .staleCompensationSuccess then
    [.warning s!"Node {node} compensated for stale events: {e.text}"]
  else [.error s!"Node {node} failed to compensate for stale events: {e.text}"]

/-- The log of one node. -/
def auditLog (node : Nat) (c : Cursor) : Audit Cursor Unit :=
  (sweep isCompensation (List.flatMap (findings node)) c).conclude fun _ _ => []

/-- How nodes dealt with events that were too old to use. -/
def audit (validator : String) (nodes : List Node) : Audit (List Node) Unit :=
  (Audit.each (Node.auditLog validator () auditLog) nodes).conclude fun _ _ => []

end Compensation

end RunAudit.Check
