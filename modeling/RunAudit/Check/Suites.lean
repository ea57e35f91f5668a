import RunAudit.Check.Exceptions

/-!
# Suites of a client

The log of a client consists of blocks, one for each suite that it ran. An entry that names no
suite belongs to the one that was started last.

* `SuiteCounts`, `countSuites`: what happened in each suite.
* `audit`: no suite failed, and every one that started came to an end.
-/

namespace RunAudit.Check.Suites

open Log

/-- How often something happened in a suite. -/
structure SuiteCounts where
  started : Nat := 0
  passed : Nat := 0
  failed : Nat := 0
  wrongStatus : Nat := 0
  exceptions : Nat := 0
  deriving DecidableEq, Repr

/-- The counts with one more entry, if entries with its marker are counted. -/
def SuiteCounts.add? (s : SuiteCounts) : Marker → Option SuiteCounts
  | .suiteStart => some { s with started := s.started + 1 }
  | .suitePassed => some { s with passed := s.passed + 1 }
  | .suiteFailed => some { s with failed := s.failed + 1 }
  | .wrongStatus => some { s with wrongStatus := s.wrongStatus + 1 }
  | m => if m.isException then some { s with exceptions := s.exceptions + 1 } else none

/-- The counts of all suites, by name. -/
abbrev Tally := Keyed String SuiteCounts

/-- A tally with one more entry of a suite. -/
def Tally.add (t : Tally) (suite : String) (m : Marker) : Tally :=
  match ((t.get? suite).getD {}).add? m with
  | some counts => t.insert suite counts
  | none => t

/-- The suite that is under way after an entry of some suite. -/
def nextSuite (current : Option String) (suite : String) (m : Marker) : Option String :=
  if m = .suiteStart then some suite else current

/-- A tally carried on by more entries. An entry without a suite counts nowhere. -/
def countFrom (current : Option String) (t : Tally) : List Entry → Tally
  | [] => t
  | e :: later =>
    match e.suite.or current with
    | none => countFrom current t later
    | some suite => countFrom (nextSuite current suite e.marker) (t.add suite e.marker) later

/-- What happened in each suite of a client log. -/
def countSuites (entries : List Entry) : Tally := countFrom none .empty entries

/-- What is said of one suite. -/
def suiteFindings (node : Nat) (suite : String) (s : SuiteCounts) : List Finding :=
  [.info (s!"Node {node} suite {suite}: {s.passed} passed, {s.failed} failed, "
    ++ s!"{s.wrongStatus} wrong status, {s.exceptions} exceptions")]
    ++ (if 0 < s.failed then [.error s!"Node {node} suite {suite} failed"] else [])
    ++ (if 0 < s.wrongStatus then
      [.warning s!"Node {node} suite {suite} got {s.wrongStatus} unexpected response statuses"]
      else [])
    ++ (if s.passed + s.failed < s.started then
      [.warning s!"Node {node} suite {suite} never finished"] else [])

/-- The client log of one node, which results in whether there is one. Clients run next to some of
the nodes only. -/
def auditClient (place : Nat) (node : Node) : Audit Node Bool :=
  match node.client with
  | none => .done [] node false
  | some c =>
    ((sweep (fun _ => true) (fun _ => []) c).andThen fun c entries =>
      .done ((countSuites entries).entries.flatMap (fun (suite, s) => suiteFindings place suite s)
        ++ exceptionFindings place "HAPI client" judgePeer c.exceptions) c true).within
          fun c => { node with client := some c }

/-- No suite failed, and every one that started came to an end. -/
def audit (nodes : List Node) : Audit (List Node) Unit :=
  (Audit.each auditClient nodes).conclude fun _ clients =>
    if clients.any id then [] else [.error "No node has a HAPI client log"]

end RunAudit.Check.Suites
