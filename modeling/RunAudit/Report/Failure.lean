/-!
# Failures

A check that finds something wrong with a run says so in its report. A failure is something else:
an input of the check could not be read at all. What others say of that is passed on as they say it.

* `Foreign`: what others say of an error of theirs.
* `Failure.message`: the wording.
* `Failure.cause`, `Failure.rootCause`: the wording of what lies behind it, and behind that.
* `Wording`: how the readers of metrics and configurations word their errors.
-/

namespace RunAudit

/-- What others say of an error of theirs. -/
structure Foreign where
  text : String
  /-- What they say of the error behind it, if there is one. -/
  behind : Option String := none
  deriving DecidableEq, Repr

/-- Why a file could not be read. -/
inductive ReadFailure where
  /-- The text is not valid UTF-8. -/
  | undecodable
  /-- A folder stands where a file should be. -/
  | folder
  /-- The path leads through a file. -/
  | notAFolder
  /-- Any other reason, as the system states it. -/
  | other (error : Foreign)
  deriving DecidableEq, Repr

namespace ReadFailure

/-- The wording of a failure to read. -/
def message : ReadFailure → String
  | undecodable => "stream did not contain valid UTF-8"
  | folder => "Is a directory (os error 21)"
  | notAFolder => "Not a directory (os error 20)"
  | other error => error.text

/-- The wording of what lies behind a failure to read. -/
def cause : ReadFailure → Option String
  | other error => error.behind
  | _ => none

end ReadFailure

/-- Why a check could not run. -/
inductive Failure where
  /-- A log or another file of a node could not be read. -/
  | unreadable (reason : ReadFailure)
  /-- The metrics of a node are not valid. -/
  | metrics (error : Foreign)
  /-- The configuration of the test application is not valid. -/
  | appConfig (error : Foreign)
  /-- The snapshot of a node does not decode. -/
  | snapshot (node : Nat) (error : Foreign)
  /-- An input that the check cannot do without was not given. -/
  | missingInput (what : String)
  deriving DecidableEq, Repr

namespace Failure

/-- The wording of a failure. -/
def message : Failure → String
  | unreadable reason => "failed to read an input stream: " ++ reason.message
  | metrics error => "failed to read a metrics CSV: " ++ error.text
  | appConfig error => "malformed application config: " ++ error.text
  | snapshot node error =>
    "expected map snapshot of node " ++ toString node ++ " is corrupt: " ++ error.text
  | missingInput what => "missing input: " ++ what

/-- The wording of what lies behind a failure. -/
def cause : Failure → Option String
  | unreadable reason => some reason.message
  | metrics error | appConfig error => some error.text
  | snapshot node error => some (snapshot node error).message
  | missingInput _ => none

/-- The wording of what lies behind the cause. -/
def rootCause : Failure → Option String
  | unreadable reason => reason.cause
  | metrics error | appConfig error => error.behind
  | snapshot _ error => some error.text
  | missingInput _ => none

end Failure

/-- How the readers of metrics and of configurations say what is wrong with a text that they refuse.
Which texts they refuse does not depend on it. -/
structure Wording where
  metrics : List UInt8 → Foreign
  appConfig : String → Foreign

/-- Readers that say nothing. -/
def Wording.silent : Wording where
  metrics _ := { text := "" }
  appConfig _ := { text := "" }

end RunAudit
