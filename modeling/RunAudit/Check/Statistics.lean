import RunAudit.Node

/-!
# Thresholds on metrics

Advisory checks of the metrics of all nodes. Each threshold yields at most one warning, which names
every node that breaches it. A node without metrics is an error of its own.

* `Threshold`: a title and the test of one table.
* `thresholds`: the six thresholds in the order they are reported.
* `offenders`: the nodes that breach a threshold, and how.
* `findings`: the findings for a list of nodes.
-/

namespace RunAudit.Check.Statistics

open Decimal Metrics

/-- A threshold on the metrics of one node. -/
structure Threshold where
  /-- What is wrong with the nodes that breach it. -/
  title : String
  /-- How a node breaches it, if it does. -/
  breach? : Table → Option String

/-- A threshold on one column. -/
def Threshold.onColumn (title name : String) (breach? : Column → Option String) : Threshold :=
  ⟨title, fun t => (t.column? name).bind breach?⟩

/-- The most by which the largest latency may exceed the smallest. -/
def maxLatencyVariation : Float := 4.0

/-- The longest consensus queue that is no concern. -/
def maxConsensusQueue : Float := 450.0

/-- The least amount of free bytes that is no concern. -/
def minFreeBytes : Float := 50.0 * 1024.0 * 1024.0

/-- The largest part of the memory that may be in use. -/
def maxMemoryFraction : Float := 0.95

/-- Latency from creation of a transaction to consensus should be steady. -/
def latency : Threshold :=
  .onColumn s!"C2C variation (max / min) exceeds {renderFloat maxLatencyVariation}" "secC2C"
    fun c =>
      let least : Float := c.minNot0
      if least ≤ 0.0 then none
      else
        let variation := c.max / least
        if variation > maxLatencyVariation then some (renderFixed 2 variation) else none

/-- The queue before consensus should stay short. -/
def consensusQueue : Threshold :=
  .onColumn s!"Consensus queue size exceeds {renderFloat maxConsensusQueue}" "q2" fun c =>
    let longest : Float := c.max
    if longest > maxConsensusQueue then some (renderFixed 0 longest) else none

/-- Hashing a state should take no longer than the fastest round. -/
def stateHashing : Threshold where
  title := "Hashing a signed state takes longer than producing a round"
  breach? t := do
    let rounds : Float := (← t.column? "rounds/sec").max
    let hashing : Float := (← t.column? "sigStateHashTime").max
    if rounds ≤ 0.0 then none
    else
      let round := 1.0 / rounds
      if round < hashing then
        some s!"hashing {renderFixed 4 hashing}s > fastest round {renderFixed 4 round}s"
      else none

/-- How little is free, if it is too little. -/
def scarce? (c : Column) : Option String :=
  let least : Float := c.minNot0
  if 0.0 < least && least < minFreeBytes then
    some s!"{renderFixed 1 (least / 1024.0 / 1024.0)} MiB"
  else none

/-- Memory should not run out. -/
def freeMemory : Threshold := .onColumn "Free memory dropped below 50 MiB" "memFree" scarce?

/-- Disks should not fill up. -/
def freeDisk : Threshold :=
  .onColumn "Free disk space dropped below 50 MiB" "diskspaceFree" scarce?

/-- Memory in use should stay below the limit. -/
def memoryUsed : Threshold where
  title := s!"Memory used exceeds {renderFixed 0 (maxMemoryFraction * 100.0)}% of max memory"
  breach? t := do
    let used : Float := (← t.column? "memTotUsed").max
    let limit : Float := (← t.column? "memMax").max
    if limit ≤ 0.0 then none
    else if used > maxMemoryFraction * limit then
      some s!"{renderFixed 1 (used / limit * 100.0)}% used"
    else none

/-- The thresholds in the order they are reported. -/
def thresholds : List Threshold :=
  [latency, consensusQueue, stateHashing, freeMemory, freeDisk, memoryUsed]

/-- The nodes that breach a threshold, by number, and how. -/
def offenders (t : Threshold) (nodes : List Node) : List (Nat × String) :=
  (nodes.mapIdx fun i node => (node.metrics.bind t.breach?).map (i, ·)).filterMap id

/-- The one warning for a threshold that some node breaches. -/
def breachFindings (t : Threshold) (nodes : List Node) : List Finding :=
  match offenders t nodes with
  | [] => []
  | found =>
    let details := String.intercalate ", " (found.map fun (i, how) => s!"node {i}: {how}")
    [.warning s!"{t.title} on {found.length} node(s) ({details})"]

/-- What is said of a node without metrics. -/
def missingFindings (validator : String) (place : Nat) (node : Node) : List Finding :=
  if node.metrics.isSome then []
  else
    [.event (.metricsMissing validator place),
     .error s!"Node {place} metrics CSV is missing or unreadable"]

/-- The findings for the metrics of all nodes. -/
def findings (validator : String) (nodes : List Node) : List Finding :=
  (nodes.mapIdx (missingFindings validator)).flatten
    ++ thresholds.flatMap (breachFindings · nodes)

end RunAudit.Check.Statistics
