import RunAudit.Node
import RunAudit.Throughput.Phases

/-!
# Throttle values

An experiment may throttle the rate of transactions, phase by phase. The throughput that the
network settled at in each phase is compared with the rate that was asked for. Deviations are only
ever warnings.

* `networkSeries`: the throughput of the network, sample by sample.
* `phaseFindings`: one phase against its expected rate.
* `findings`: the whole check.
-/

namespace RunAudit.Check.Throttle

open Metrics Throughput

variable {α : Type} [Quantity α]

/-- The metric of the rate of transactions. -/
def rateMetric : String := "trans/sec"

/-- The columns of the rate of transactions, of the nodes that have one. -/
def rateColumns (nodes : List Node) : List Column := nodes.filterMap (·.column? rateMetric)

/-- What is said of a node without a rate of transactions. -/
def missingFindings (validator : String) (place : Nat) (node : Node) : List Finding :=
  if (node.column? rateMetric).isSome then []
  else
    [.event (.metricsMissing validator place),
     .error s!"Node {place} has no {rateMetric} metric"]

/-- The length of the shortest column. -/
def shortest (columns : List Column) : Nat :=
  ((columns.map (·.samples.length)).min?).getD 0

/-- The throughput of the network: the sums over all nodes, as far as the shortest column goes. -/
def networkSeries (columns : List Column) : List α :=
  columns.foldl (fun totals c => totals.zipWith (· + ·) c.values)
    (List.replicate (shortest columns) (Quantity.ofNat 0))

/-- The largest tolerable deviation from an expected rate, as a part of it. -/
def maxDeviation : α := 0.10

/-- What is said of one phase. One without an expected rate is not judged. -/
def phaseFindings (phase : Nat) (expected actual : α) : List Finding :=
  let expectedText := Quantity.render 2 expected
  let actualText := Quantity.render 2 actual
  let event := Finding.event (.throttlePhase phase expectedText actualText)
  if expected ≤ Quantity.ofNat 0 then [event]
  else
    let deviation := Quantity.abs (actual - expected) / expected
    if maxDeviation < deviation then
      let percent := Quantity.render 0 (deviation * Quantity.ofNat 100)
      [event,
       .warning (s!"Throttle phase {phase} expected {expectedText} trans/sec per node but "
         ++ s!"stabilized at {actualText} ({percent}% off)")]
    else
      [event,
       .info (s!"Throttle phase {phase} stabilized at {actualText} trans/sec per node "
         ++ s!"(expected {expectedText})")]

/-- What is said of the phases that were found. -/
def comparisonFindings (expected phases : List α) : List Finding :=
  if phases.isEmpty then [.warning "Throughput never stabilized"]
  else
    ((expected.zip phases).mapIdx fun i (e, a) => phaseFindings i e a).flatten
      ++ (if phases.length < expected.length then
        [.warning (s!"Throughput stabilized {phases.length} times but {expected.length} "
          ++ "throttle phases were configured")]
        else [])

/-- The whole check against a list of expected rates. -/
def findings (validator : String) (expected : List α) (nodes : List Node) : List Finding :=
  if expected.isEmpty then [.info "No throttle values configured"]
  else
    let columns := rateColumns nodes
    (nodes.mapIdx (missingFindings validator)).flatten
      ++ comparisonFindings expected (stablePhases (networkSeries columns) columns.length)

end RunAudit.Check.Throttle
