import RunAudit.Config.Experiment
import RunAudit.Log.Marker
import RunAudit.Time.Calendar

/-!
# Attempts to reconnect

The log of a reconnecting node is followed by a machine with two phases: it either looks for an
attempt or is inside one. Each marker that concerns reconnecting leads to a next phase and an
action.

* `transition`: the table of the machine.
* `tolerated`: whether an error while receiving a state is expected.
-/

namespace RunAudit.Reconnect

open Config Log Time

/-- Whether an attempt is under way. -/
inductive Phase where
  | scanning
  | reconnecting
  deriving DecidableEq, Repr

/-- What is to be done about an entry. -/
inductive Action where
  | startAttempt
  | restartUnfinishedAttempt
  | finishAttempt
  | finishWithoutStart
  | receiveStateError
  | abortAttempt
  | hashMismatch
  | recordActivation
  | staleCompensationSuccess
  | staleCompensationFailure
  | ignore
  deriving DecidableEq, Repr

/-- The next phase and the action for a marker. -/
def transition : Phase → Marker → Phase × Action
  | .scanning, .reconnectStart => (.reconnecting, .startAttempt)
  | .reconnecting, .reconnectStart => (.reconnecting, .restartUnfinishedAttempt)
  | .reconnecting, .reconnectFinished => (.scanning, .finishAttempt)
  | .scanning, .reconnectFinished => (.scanning, .finishWithoutStart)
  | _, .receiveStateError => (.scanning, .receiveStateError)
  | _, .receiveStateIoException => (.scanning, .abortAttempt)
  | _, .receiveStateHashMismatch => (.scanning, .hashMismatch)
  | phase, .changedToActive => (phase, .recordActivation)
  | phase, .staleCompensationSuccess => (phase, .staleCompensationSuccess)
  | phase, .staleCompensationFailure => (phase, .staleCompensationFailure)
  | phase, _ => (phase, .ignore)

/-- Whether the machine reacts to a marker. -/
def concerns : Marker → Bool
  | .reconnectStart | .reconnectFinished | .receiveStateError | .receiveStateIoException
  | .receiveStateHashMismatch | .changedToActive | .staleCompensationSuccess
  | .staleCompensationFailure => true
  | _ => false

/-- How long after a node became active, in seconds, it may fail to receive a state. -/
def activeGrace : Nat := 30

/-- An error while receiving a state is expected right after the node became active, but only if
its network was cut and not if its process was killed. -/
def tolerated (scenario : ReconnectScenario) (active error : Option Instant) : Bool :=
  match scenario, active, error with
  | .killNetwork, some active, some error =>
    active ≤ error && error.since active ≤ Instant.seconds activeGrace
  | _, _, _ => false

/-- **A marker that does not concern the machine changes nothing.** -/
theorem transition_of_not_concerns {m : Marker} (h : concerns m = false) (phase : Phase) :
    transition phase m = (phase, .ignore) := by
  cases phase <;> cases m <;> simp_all [concerns, transition]

end RunAudit.Reconnect
