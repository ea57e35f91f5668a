import RunAudit.Config.Experiment
import RunAudit.Node

/-!
# Judging exceptions

Which exceptions are expected depends on what was done to the nodes. A rule judges each exception
entry of a log, and the judgement decides how it is reported.

* `judgePlain`: the rule of a run in which nothing was done to the nodes.
* `judgeRestart`: the rule of runs in which nodes went down and came back.
* `judgePeer`, `judgeReconnected`: the rules for the nodes that stayed up while the last one
  reconnected, and for the last one.
* `ExceptionPolicy.judge`: the rule for one node of an experiment.
* `exceptionFindings`: the findings for the exceptions of a log.
-/

namespace RunAudit.Check

open Log Time Config

/-- How one exception is reported. -/
inductive Judgement where
  | ignore
  | info
  | warning
  | error
  deriving DecidableEq, Repr

/-- The finding with a message that a judgement calls for. -/
def Judgement.finding? (message : String) : Judgement → Option Finding
  | ignore => none
  | info => some (.info message)
  | warning => some (.warning message)
  | error => some (.error message)

/-- How a report names an exception found in one of the logs of a node. -/
def exceptionMessage (node : Nat) (source : String) (e : Entry) : String :=
  s!"Node {node} {source} has {e.marker.name}: {e.text}"

/-- The findings for the exceptions of a log, judged by a rule. -/
def exceptionFindings (node : Nat) (source : String) (judge : Entry → Judgement)
    (exceptions : List Entry) : List Finding :=
  exceptions.filterMap fun e => (judge e).finding? (exceptionMessage node source e)

/-- How long before the end of a run, in seconds, connections may already break. -/
def shutdownGrace : Nat := 10

/-- Connections break while nodes shut down, so a socket exception is expected close to the end of
a run and an error before. Without the times of both it is suspicious. -/
def judgePlain (runEnd : Option Instant) (e : Entry) : Judgement :=
  match e.marker with
  | .testingExceptionsAcceptable => .info
  | .socketException =>
    match e.timestamp, runEnd with
    | some raised, some closing =>
      if closing.since raised ≤ Instant.seconds shutdownGrace then .info else .error
    | _, _ => .warning
  | _ => .error

/-- Connections break while nodes are down. A queue of states to delete that grows too big is
suspicious. -/
def judgeRestart (e : Entry) : Judgement :=
  match e.marker with
  | .socketException | .testingExceptionsAcceptable => .info
  | .deleteQueueTooBig => .warning
  | _ => .error

/-- A node that stays up sees its connections to the reconnecting node break. -/
def judgePeer (e : Entry) : Judgement :=
  match e.marker with
  | .socketException | .testingExceptionsAcceptable => .info
  | _ => .error

/-- The exceptions that belong to reconnecting itself are judged where attempts are followed. -/
def judgeReconnected (e : Entry) : Judgement :=
  match e.marker with
  | .socketException | .testingExceptionsAcceptable => .info
  | .receiveStateError | .receiveStateIoException | .receiveStateHashMismatch
  | .staleCompensationFailure => .ignore
  | _ => .error

/-- Nodes that serve clients see connections come and go, which is not worth a message. -/
def judgeServices (e : Entry) : Judgement :=
  match e.marker with
  | .socketException | .testingExceptionsAcceptable => .ignore
  | _ => .error

/-- What was done to the nodes, as far as it decides which exceptions are expected. -/
inductive ExceptionPolicy where
  | plain
  /-- The last node was made to reconnect. -/
  | reconnect
  /-- Nodes went down and came back from a saved state. -/
  | restart
  deriving DecidableEq, Repr

namespace ExceptionPolicy

/-- The policy of an experiment. -/
def ofConfig (c : ExperimentConfig) : ExceptionPolicy :=
  if c.reconnect.isSome then .reconnect
  else if c.freezeRestart || c.recoverState then .restart
  else .plain

/-- The rule for one node, whose run ended at a given time. -/
def judge (policy : ExceptionPolicy) (isLast : Bool) (runEnd : Option Instant) :
    Entry → Judgement :=
  match policy with
  | .plain => judgePlain runEnd
  | .reconnect => if isLast then judgeReconnected else judgePeer
  | .restart => judgeRestart

end ExceptionPolicy

/-- **An exception is reported unless the rule ignores it.** -/
theorem isSome_finding? (message : String) (j : Judgement) :
    (j.finding? message).isSome ↔ j ≠ .ignore := by
  cases j <;> simp [Judgement.finding?]

end RunAudit.Check
