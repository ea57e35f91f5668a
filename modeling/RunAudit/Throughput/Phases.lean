import RunAudit.Quantity

/-!
# Phases of steady throughput

A series of samples is seen through windows of five. A window is stable if its sum is close to
that of the window before it, or if its samples are close to each other; close means by less than
a fiftieth of the sum. A run of stable windows is a phase, and its throughput is that of the most
stable window in it.

* `Window.delta?`: by how much a window is off, if it is stable.
* `steadySums`: the sum of the most stable window of each run.
* `stablePhases`: the throughput per node of each phase.
-/

namespace RunAudit.Throughput

variable {α : Type} [Quantity α]

/-- The number of samples in a window. -/
def windowSize : Nat := 5

/-- A window of a series. -/
structure Window (α : Type) where
  sum : α
  /-- How far the samples lie apart, on the scale of a sum. -/
  spread : α

namespace Window

/-- The window of some samples. -/
def ofSamples (samples : List α) : Window α :=
  let zero : α := Quantity.ofNat 0
  { sum := (Quantity.total samples).getD zero
    spread := ((Quantity.greatest samples).getD zero - (Quantity.least samples).getD zero)
      * Quantity.ofNat windowSize }

/-- By how much a window may be off and still be stable. -/
def tolerance (w : Window α) : α := 0.02 * w.sum

/-- How much a window is off, if it is stable: the smaller of its change against the sum of the
window before it and its spread, of those that are tolerable. -/
def delta? (previous : Option α) (w : Window α) : Option α :=
  let change := previous.map fun sum => Quantity.abs (w.sum - sum)
  Quantity.least ((change.toList ++ [w.spread]).filter fun d => decide (d < w.tolerance))

end Window

/-- The windows of a series, in order. -/
def windows : List α → List (Window α)
  | [] => []
  | x :: xs =>
    let first := (x :: xs).take windowSize
    if first.length < windowSize then [] else .ofSamples first :: windows xs

/-- The sum of the most stable window of each run of stable windows. Of equally stable windows the
first counts. `best` is how much that window is off, and its sum, in the run under way. -/
def steadySums (best : Option (α × α)) (previous : Option α) : List (Window α) → List α
  | [] => best.toList.map (·.2)
  | w :: ws =>
    match w.delta? previous, best with
    | some delta, some (least, sum) =>
      steadySums (some (if delta < least then (delta, w.sum) else (least, sum))) (some w.sum) ws
    | some delta, none => steadySums (some (delta, w.sum)) (some w.sum) ws
    | none, some (_, sum) => sum :: steadySums none (some w.sum) ws
    | none, none => steadySums none (some w.sum) ws

/-- The throughput per node of each phase of a series that sums over some number of nodes. -/
def stablePhases (series : List α) (nodeCount : Nat) : List α :=
  if nodeCount = 0 then []
  else (steadySums none none (windows series)).map fun sum =>
    sum / Quantity.ofNat windowSize / Quantity.ofNat nodeCount

@[simp] theorem stablePhases_zero (series : List α) : stablePhases series 0 = [] := rfl

theorem windows_eq_nil {series : List α} (h : series.length < windowSize) :
    windows series = [] := by
  cases series with
  | nil => rfl
  | cons x xs =>
    have short : ((x :: xs).take windowSize).length < windowSize := by
      rw [List.length_take]; omega
    simp only [windows, short, if_true]

/-- **Fewer samples than a window holds have no phase.** -/
theorem stablePhases_of_short {series : List α} (h : series.length < windowSize) (n : Nat) :
    stablePhases series n = [] := by
  simp [stablePhases, windows_eq_nil h, steadySums]

end RunAudit.Throughput
