import RunAudit.Check.Exceptions
import RunAudit.Check.Statistics

/-!
# Health of nodes

Checks that look for unexpected exceptions: in the logs and metrics of every run, in standard
output, where exceptions end up that no log recorded, and in the logs of nodes that serve clients.

* `Health.auditStandard`: the check of every run.
* `Health.auditStdout`: exceptions in standard output.
* `Health.auditServices`: exceptions in the logs of nodes that serve clients.
-/

namespace RunAudit.Check.Health

open Log

/-- Whether an entry reports progress of the test application. -/
def isProgress : Marker → Bool
  | .testAppSuccess | .testAppFinish => true
  | _ => false

/-- What is said of an entry that reports progress. -/
def progressFindings (node : Nat) (e : Entry) : List Finding :=
  if e.marker = .testAppSuccess then [.info s!"Node {node}: {e.text}"] else []

/-- What is said of a node on which the test application should have finished. -/
def finishFindings (node : Nat) (progress : List Entry) : List Finding :=
  if progress.any (·.marker = .testAppFinish) then []
  else [.warning s!"Node {node} never reported that the test app finished"]

/-- The log of one node: progress of the test application, then exceptions. -/
def auditLog (expectFinish : Bool) (policy : ExceptionPolicy) (last : Nat) (node : Nat)
    (c : Cursor) : Audit Cursor Unit :=
  (sweep isProgress (List.flatMap (progressFindings node)) c).conclude fun c progress =>
    (if expectFinish then finishFindings node progress else [])
      ++ exceptionFindings node "log" (policy.judge (node = last) c.lastTimestamp) c.exceptions

/-- The check of every run: exceptions by the policy, then metrics. -/
def auditStandard (validator : String) (expectFinish : Bool) (policy : ExceptionPolicy)
    (nodes : List Node) : Audit (List Node) Unit :=
  (Audit.each (Node.auditLog validator () (auditLog expectFinish policy (nodes.length - 1)))
    nodes).conclude fun nodes _ => Statistics.findings validator nodes

/-- The standard output of one node. A node without it has nothing to check. -/
def auditNodeStdout (place : Nat) (node : Node) : Audit Node Unit :=
  match node.stdout with
  | none => .done [] node ()
  | some c =>
    ((finish c).conclude fun c _ =>
      exceptionFindings place "stdout" (judgePlain c.lastTimestamp) c.exceptions).within
        fun c => { node with stdout := some c }

/-- Exceptions in standard output. -/
def auditStdout (nodes : List Node) : Audit (List Node) Unit :=
  (Audit.each auditNodeStdout nodes).conclude fun _ _ => []

/-- The log of one node that serves clients. -/
def auditServicesLog (node : Nat) (c : Cursor) : Audit Cursor Unit :=
  (finish c).conclude fun c _ => exceptionFindings node "log" judgeServices c.exceptions

/-- Exceptions in the logs of nodes that serve clients. -/
def auditServices (validator : String) (nodes : List Node) : Audit (List Node) Unit :=
  (Audit.each (Node.auditLog validator () auditServicesLog) nodes).conclude fun _ _ => []

end RunAudit.Check.Health
