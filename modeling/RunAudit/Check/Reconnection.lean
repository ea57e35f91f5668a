import RunAudit.Check.Exceptions
import RunAudit.Reconnect.Transition

/-!
# Reconnection of the last node

The last node was made to reconnect. It must finish at least one attempt, leave none unfinished,
and end at a round that is neither before the one it started from nor far behind the others.

* `Progress.step`: one entry of its log.
* `auditScan`: its whole log.
* `roundFindings`: the round that it ended at.
* `audit`: the whole check.
-/

namespace RunAudit.Check.Reconnection

open Config Decimal Log Reconnect Time

/-- What is known of the attempts so far. -/
structure Progress where
  phase : Phase := .scanning
  /-- When the attempt under way started. -/
  startedAt : Option Instant := none
  /-- When the node last became active. -/
  activeAt : Option Instant := none
  /-- The number of finished attempts. -/
  finished : Nat := 0

/-- What is said of a finished attempt. -/
def finishFindings (node attempt : Nat) (seconds : Option Int) : List Finding :=
  [.event (.reconnectFinished node seconds),
   .info <| match seconds with
     | some seconds => s!"Node {node} finished reconnect {attempt} in {seconds} seconds"
     | none => s!"Node {node} finished reconnect {attempt}"]

/-- One entry: what is known after it and what is said of it. A tolerated error leaves the attempt
under way. -/
def Progress.step (scenario : ReconnectScenario) (node : Nat) (p : Progress) (e : Entry) :
    Progress × List Finding :=
  let (phase, action) := transition p.phase e.marker
  match action with
  | .startAttempt => ({ p with phase, startedAt := e.timestamp }, [])
  | .restartUnfinishedAttempt =>
    ({ p with phase, startedAt := e.timestamp },
      [.error s!"Node {node} started a new reconnect before the previous one finished"])
  | .finishAttempt =>
    let seconds := do return (← e.timestamp).secondsSince (← p.startedAt)
    ({ p with phase, startedAt := none, finished := p.finished + 1 },
      finishFindings node (p.finished + 1) seconds)
  | .finishWithoutStart =>
    ({ p with phase },
      [.warning s!"Node {node} finished a reconnect that was never started: {e.text}"])
  | .receiveStateError =>
    if tolerated scenario p.activeAt e.timestamp then
      (p,
        [.info (s!"Node {node} failed to receive state within {activeGrace} seconds of "
          ++ s!"becoming active: {e.text}")])
    else
      ({ p with phase, startedAt := none },
        [.event (.reconnectAborted node),
         .error s!"Node {node} failed to receive state: {e.text}"])
  | .abortAttempt =>
    ({ p with phase, startedAt := none },
      [.event (.reconnectAborted node),
       .error s!"Node {node} hit an I/O exception while receiving state: {e.text}"])
  | .hashMismatch =>
    ({ p with phase, startedAt := none },
      [.error s!"Node {node} received a state whose hash does not match: {e.text}"])
  | .recordActivation => ({ p with phase, activeAt := e.timestamp }, [])
  | .staleCompensationSuccess =>
    ({ p with phase }, [.warning s!"Node {node} compensated for stale events: {e.text}"])
  | .staleCompensationFailure =>
    ({ p with phase }, [.error s!"Node {node} failed to compensate for stale events: {e.text}"])
  | .ignore => ({ p with phase }, [])

/-- The entries of a log in turn. -/
def Progress.follow (scenario : ReconnectScenario) (node : Nat) (p : Progress) :
    List Entry → Progress × List Finding
  | [] => (p, [])
  | e :: later =>
    let (p, now) := p.step scenario node e
    let (p, following) := p.follow scenario node later
    (p, now ++ following)

/-- What is said at the end of the log about an attempt that is still under way. -/
def unfinishedFindings (node : Nat) (p : Progress) : List Finding :=
  if p.phase = .reconnecting then
    [.error s!"Node {node} started reconnecting but never finished before its log ended"]
  else []

/-- The log of the last node, which results in the number of finished attempts. -/
def auditScan (scenario : ReconnectScenario) (node : Nat) (c : Cursor) :
    Audit Cursor (Option Nat) :=
  (sweep concerns (fun entries => (Progress.follow scenario node {} entries).2) c).andThen
    fun c entries =>
      let progress := (Progress.follow scenario node {} entries).1
      .done (unfinishedFindings node progress
        ++ exceptionFindings node "log" judgeReconnected c.exceptions) c (some progress.finished)

/-- The log of a node that stayed up. -/
def auditPeer (node : Nat) (c : Cursor) : Audit Cursor (Option Nat) :=
  (finish c).andThen fun c _ =>
    .done (exceptionFindings node "log" judgePeer c.exceptions) c none

/-- The metric of the round that a super-majority has reached. -/
def roundMetric : String := "roundSup"

/-- The round that a node ended at. -/
def finalRound (node : Node) : Option Float := (node.column? roundMetric).map (·.last)

/-- How many rounds a node may lag behind. -/
def maxRoundLag : Float := 10.0

/-- What is said of a final round before the one that the nodes started from. -/
def startFindings (node : Nat) (round : Float) (start : UInt64) : List Finding :=
  if round < start.toFloat then
    [.error (s!"Node {node} ended at round {renderFloat round} which is before the saved state "
      ++ s!"start round {start}")]
  else []

/-- What is said of a final round against the lowest of the others. -/
def lagFindings (node : Nat) (round : Float) : Option Float → List Finding
  | none => [.warning s!"No other node has a {roundMetric} metric to compare node {node} against"]
  | some lowest =>
    if lowest - round > maxRoundLag then
      [.error (s!"Node {node} ended at round {renderFloat round} which lags the network minimum "
        ++ s!"{renderFloat lowest} by more than {renderFloat maxRoundLag} rounds")]
    else
      [.info (s!"Node {node} ended at round {renderFloat round}, "
        ++ s!"network minimum is {renderFloat lowest}")]

/-- What is said of the round that the last node ended at. -/
def roundFindings (start : UInt64) (peers : List Node) (last : Node) : List Finding :=
  let node := peers.length
  match finalRound last with
  | none => [.error s!"Node {node} has no {roundMetric} metric, cannot check that it caught up"]
  | some round =>
    startFindings node round start
      ++ lagFindings node round (Quantity.least (peers.filterMap finalRound))

/-- What is said of the number of finished attempts. -/
def countFindings (node : Nat) (finished : Option Nat) : List Finding :=
  if finished = some 0 then [.error s!"Node {node} never finished a reconnect"] else []

/-- The log of a node: followed on the last one, only searched for exceptions on the others. -/
def auditLog (scenario : ReconnectScenario) (last node : Nat) (c : Cursor) :
    Audit Cursor (Option Nat) :=
  if node = last then auditScan scenario node c else auditPeer node c

/-- The whole check. -/
def audit (validator : String) (scenario : ReconnectScenario) (start : UInt64)
    (nodes : List Node) : Audit (List Node) Unit :=
  match nodes with
  | [] => .done [.error "Experiment has no nodes"] [] ()
  | _ =>
    let last := nodes.length - 1
    (Audit.each (Node.auditLog validator none (auditLog scenario last)) nodes).conclude
      fun nodes finished =>
        countFindings last finished.getLast?.join
          ++ match nodes.getLast? with
            | some node => roundFindings start nodes.dropLast node
            | none => []

end RunAudit.Check.Reconnection
