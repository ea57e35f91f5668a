/-!
# Markers

The closed vocabulary of tags that entries of a log carry. Checks look at the marker of an entry
and never search its text.

* `Marker.name`: the tag as a log line spells it.
* `Marker.ofName`: the tag with a given spelling; one outside the vocabulary is `other`.
* `Marker.isException`: the tags that count as exceptions.
* `Marker.ofName_name`: each tag is read back from its spelling.
-/

namespace RunAudit.Log

/-- What an entry reports. -/
inductive Marker where
  | exception
  | socketException
  | testingExceptionsAcceptable
  | reconnectStart
  | reconnectFinished
  | receiveStateError
  | receiveStateIoException
  | receiveStateHashMismatch
  | changedToActive
  | staleCompensationSuccess
  | staleCompensationFailure
  | freezeStateSaved
  | loadRestart
  | deleteQueueTooBig
  | testAppSuccess
  | testAppFinish
  | stateSaved
  | migrationStartLoad
  | migrationEndLoad
  | migrationStartProcess
  | migrationEndProcess
  | suiteStart
  | suitePassed
  | suiteFailed
  | wrongStatus
  | startup
  | platformStatus
  /-- A line outside the structured layout that mentions no exception. -/
  | unstructured
  /-- A structured line whose tag is outside this vocabulary. -/
  | other
  deriving DecidableEq, Repr

namespace Marker

/-- How log lines spell a marker. -/
def name : Marker → String
  | exception => "EXCEPTION"
  | socketException => "SOCKET_EXCEPTIONS"
  | testingExceptionsAcceptable => "TESTING_EXCEPTIONS_ACCEPTABLE"
  | reconnectStart => "RECONNECT_START"
  | reconnectFinished => "RECONNECT_FINISHED"
  | receiveStateError => "RECV_STATE_ERROR"
  | receiveStateIoException => "RECV_STATE_IO_EXCEPTION"
  | receiveStateHashMismatch => "RECV_STATE_HASH_MISMATCH"
  | changedToActive => "CHANGED_TO_ACTIVE"
  | staleCompensationSuccess => "SYNC_STALE_COMPENSATION_SUCCESS"
  | staleCompensationFailure => "SYNC_STALE_COMPENSATION_FAILURE"
  | freezeStateSaved => "FREEZE_STATE_SAVED"
  | loadRestart => "LOAD_RESTART"
  | deleteQueueTooBig => "SIGNED_STATE_DELETE_QUEUE_TOO_BIG"
  | testAppSuccess => "PTD_SUCCESS"
  | testAppFinish => "PTD_FINISH"
  | stateSaved => "STATE_SAVED"
  | migrationStartLoad => "MIGRATION_START_LOAD"
  | migrationEndLoad => "MIGRATION_END_LOAD"
  | migrationStartProcess => "MIGRATION_START_PROCESS"
  | migrationEndProcess => "MIGRATION_END_PROCESS"
  | suiteStart => "SUITE_START"
  | suitePassed => "SUITE_PASSED"
  | suiteFailed => "SUITE_FAILED"
  | wrongStatus => "WRONG_STATUS"
  | startup => "STARTUP"
  | platformStatus => "PLATFORM_STATUS"
  | unstructured => "UNSTRUCTURED"
  | other => "OTHER"

/-- The whole vocabulary. -/
def all : List Marker :=
  [exception, socketException, testingExceptionsAcceptable, reconnectStart, reconnectFinished,
   receiveStateError, receiveStateIoException, receiveStateHashMismatch, changedToActive,
   staleCompensationSuccess, staleCompensationFailure, freezeStateSaved, loadRestart,
   deleteQueueTooBig, testAppSuccess, testAppFinish, stateSaved, migrationStartLoad,
   migrationEndLoad, migrationStartProcess, migrationEndProcess, suiteStart, suitePassed,
   suiteFailed, wrongStatus, startup, platformStatus, unstructured, other]

/-- The marker a name spells. A name outside the vocabulary spells `other`. -/
def ofName (name : String) : Marker := (all.find? (·.name == name)).getD other

/-- Whether entries with this marker are collected as exceptions. -/
def isException : Marker → Bool
  | exception | socketException | testingExceptionsAcceptable | receiveStateError
  | receiveStateIoException | receiveStateHashMismatch | staleCompensationFailure
  | deleteQueueTooBig => true
  | _ => false

theorem mem_all (m : Marker) : m ∈ all := by cases m <;> decide

/-- **Each marker is read back from its spelling.** -/
theorem ofName_name (m : Marker) : ofName m.name = m := by cases m <;> decide +kernel

end Marker

end RunAudit.Log
