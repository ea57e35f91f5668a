import Mathlib.Data.List.Forall2
import RunAudit.Check.Statistics
import RunAudit.Proofs.Outcomes

/-!
# Thresholds name their offenders

The checks of metrics go through the nodes and number those that have something to report. Here the
places come first: a node breaches a threshold or it does not, and the one warning on a threshold
names exactly the places at which it is breached. Each threshold is also written as a test that
divides by numbers above zero only, which says what it needs of the metrics.

* `le_zero_iff`: of a finite number, not to be above zero is to be at most zero.
* `isFinite_max`, `isFinite_minNot0`: a column has finite extremes.
* `Test`, `tests`: the thresholds again, with divisors above zero.
* `breaching`, `listing`, `warning?`: the places at which a threshold is breached, and what is said
  of them.
* `offenders_named`: what the checks add to a report.
-/

namespace RunAudit.Check.Statistics

open Decimal Metrics
open Float.Model (UnpackedFloat)

variable {nodes nodes' : List Node} {t : Threshold} {table : Table} {i : Nat}

/-! ### Finite numbers -/

theorem unpack_zero : ∃ sign, (0.0 : Float).toModel.unpack = .zero sign := ⟨_, rfl⟩

/-- **Of a finite number, not to be above zero is to be at most zero.** What is no number at all is
neither. -/
theorem le_zero_iff {x : Float} (hx : x.isFinite = true) : x ≤ 0.0 ↔ ¬ 0.0 < x := by
  obtain ⟨sign, hzero⟩ := unpack_zero
  show (x.le 0.0 = true) ↔ ¬ ((0.0 : Float).lt x = true)
  unfold Float.le Float.lt
  rw [decide_eq_true_iff, decide_eq_true_iff]
  show (x.toModel.unpack.le (0.0 : Float).toModel.unpack = true) ↔
    ¬ ((0.0 : Float).toModel.unpack.lt x.toModel.unpack = true)
  unfold Float.isFinite Float.Model.isFinite at hx
  rw [hzero]
  generalize x.toModel.unpack = u at hx
  cases u with
  | notANumber => cases hx
  | infinity s => cases hx
  | zero s => exact iff_of_true rfl Bool.false_ne_true
  | finite s mantissa exponent h =>
    cases s with
    | negative => exact iff_of_true rfl Bool.false_ne_true
    | positive => exact iff_of_false Bool.false_ne_true (not_not_intro rfl)

/-- An operation that picks one of two numbers picks one of a list. -/
theorem mem_of_reduce {op : Float → Float → Float} (h : ∀ x y, op x y = x ∨ op x y = y)
    {xs : List Float} {x : Float} (hx : Quantity.reduce op xs = some x) : x ∈ xs := by
  cases xs with
  | nil => cases hx
  | cons first xs =>
    rw [Quantity.reduce, Option.some.injEq] at hx
    subst hx
    induction xs generalizing first with
    | nil => exact List.mem_singleton_self first
    | cons second xs ih =>
      rw [List.foldl_cons]
      rcases h first second with hpick | hpick
      · rw [hpick]
        rcases List.mem_cons.1 (ih first) with heq | hmem
        · rw [heq]
          exact List.mem_cons_self
        · exact List.mem_cons_of_mem _ (List.mem_cons_of_mem _ hmem)
      · rw [hpick]
        exact List.mem_cons_of_mem _ (ih second)

theorem larger_pick (x y : Float) : Quantity.larger x y = x ∨ Quantity.larger x y = y := by
  show (if y < x || y.isNaN then x else y) = x ∨ (if y < x || y.isNaN then x else y) = y
  split
  · exact .inl rfl
  · exact .inr rfl

theorem smaller_pick (x y : Float) : Quantity.smaller x y = x ∨ Quantity.smaller x y = y := by
  show (if x < y || y.isNaN then x else y) = x ∨ (if x < y || y.isNaN then x else y) = y
  split
  · exact .inl rfl
  · exact .inr rfl

theorem isFinite_zero : (Quantity.ofNat 0 : Float).isFinite = true := by
  show ((Literal.finite false 0 0).toFloat).isFinite = true
  unfold Literal.toFloat
  decide +kernel

/-- **Samples are finite**, since one that spells no finite number counts as zero. -/
theorem isFinite_sampleValue (sample : String) : (sampleValue sample : Float).isFinite = true := by
  unfold sampleValue
  cases hread : (Literal.read? (Text.trim sample.toList)).bind
      (Quantity.ofLiteral? (α := Float)) with
  | none => exact isFinite_zero
  | some x =>
    obtain ⟨literal, -, hliteral⟩ := Option.bind_eq_some_iff.1 hread
    change (if literal.toFloat.isFinite then some literal.toFloat else none) = some x at hliteral
    split at hliteral
    · next hfinite =>
      cases hliteral
      exact hfinite
    · cases hliteral

theorem isFinite_of_mem_values {c : Column} {x : Float} (h : x ∈ c.values) :
    x.isFinite = true := by
  obtain ⟨sample, -, rfl⟩ := List.mem_map.1 h
  exact isFinite_sampleValue sample

/-- The largest sample of a column is finite. -/
theorem isFinite_max (c : Column) : (c.max : Float).isFinite = true := by
  unfold Column.max
  cases hmax : Quantity.greatest (c.values (α := Float)) with
  | none => exact isFinite_zero
  | some x => exact isFinite_of_mem_values (mem_of_reduce larger_pick hmax)

/-- The smallest sample of a column that is not zero is finite. -/
theorem isFinite_minNot0 (c : Column) : (c.minNot0 : Float).isFinite = true := by
  unfold Column.minNot0
  cases hmin : Quantity.least
      ((c.values (α := Float)).filter fun x => decide (Quantity.ofNat 0 < x)) with
  | none => exact isFinite_zero
  | some x =>
    have hmem := mem_of_reduce smaller_pick hmin
    exact isFinite_of_mem_values (List.mem_of_mem_filter hmem)

/-! ### Thresholds as tests -/

/-- A number above zero. -/
structure Divisor where
  value : Float
  positive : 0.0 < value

/-- A number above zero, if it is one. -/
def Divisor.of? (x : Float) : Option Divisor := if h : 0.0 < x then some ⟨x, h⟩ else none

/-- Division by a number above zero, the only one that tests have. -/
def quotient (x : Float) (d : Divisor) : Float := x / d.value

/-- The factor between bytes and KiB. -/
def kibi : Divisor := ⟨1024.0, by decide +kernel⟩

/-- What a test asks of a column. -/
structure Reading where
  column : String
  ask : Column → Float

/-- A test of one table. -/
inductive Test where
  | bound (measured : Reading) (judge : Float → Option String)
  /-- A test that makes sense only if the base is above zero. -/
  | ratio (measured base : Reading) (judge : Float → Divisor → Option String)

namespace Test

/-- How a table fails a test, if it does. -/
def breach? (table : Table) : Test → Option String
  | bound measured judge =>
    (table.column? measured.column).bind fun c => judge (measured.ask c)
  | ratio measured base judge =>
    (table.column? measured.column).bind fun c =>
      (table.column? base.column).bind fun b =>
        (Divisor.of? (base.ask b)).bind (judge (measured.ask c))

/-- What a table must have to fail a test: the columns, and a base above zero. -/
def Ready (table : Table) : Test → Prop
  | bound measured _ => ∃ c, table.column? measured.column = some c
  | ratio measured base _ =>
    ∃ c b, table.column? measured.column = some c ∧ table.column? base.column = some b ∧
      0.0 < base.ask b

/-- **A table that fails a test was ready for it.** -/
theorem ready_of_breach? {test : Test} {how : String} (h : test.breach? table = some how) :
    test.Ready table := by
  cases test with
  | bound measured judge =>
    obtain ⟨c, hc, -⟩ := Option.bind_eq_some_iff.1 h
    exact ⟨c, hc⟩
  | ratio measured base judge =>
    obtain ⟨c, hc, h⟩ := Option.bind_eq_some_iff.1 h
    obtain ⟨b, hb, h⟩ := Option.bind_eq_some_iff.1 h
    obtain ⟨d, hd, -⟩ := Option.bind_eq_some_iff.1 h
    unfold Divisor.of? at hd
    split at hd
    · next hpos => exact ⟨c, b, hc, hb, hpos⟩
    · cases hd

end Test

/-- **A guard against numbers of at most zero** lets through divisors and nothing else. -/
theorem Divisor.of?_cases {x : Float} (hx : x.isFinite = true) :
    (x ≤ 0.0 ∧ Divisor.of? x = none) ∨
      ∃ d : Divisor, ¬ x ≤ 0.0 ∧ Divisor.of? x = some d ∧ d.value = x := by
  unfold Divisor.of?
  by_cases hpos : 0.0 < x
  · have hle : ¬ x ≤ 0.0 := fun h => (le_zero_iff hx).1 h hpos
    exact .inr ⟨⟨x, hpos⟩, hle, dif_pos hpos, rfl⟩
  · exact .inl ⟨(le_zero_iff hx).2 hpos, dif_neg hpos⟩

/-- The largest latency against the smallest. -/
def latencyTest : Test :=
  .ratio ⟨"secC2C", Column.max⟩ ⟨"secC2C", Column.minNot0⟩ fun largest smallest =>
    let variation := quotient largest smallest
    if variation > maxLatencyVariation then some (renderFixed 2 variation) else none

/-- The longest queue. -/
def consensusQueueTest : Test :=
  .bound ⟨"q2", Column.max⟩ fun longest =>
    if longest > maxConsensusQueue then some (renderFixed 0 longest) else none

/-- The longest time it took to hash a state, against the fastest round. -/
def stateHashingTest : Test :=
  .ratio ⟨"sigStateHashTime", Column.max⟩ ⟨"rounds/sec", Column.max⟩ fun hashing rounds =>
    let round := quotient 1.0 rounds
    if round < hashing then
      some s!"hashing {renderFixed 4 hashing}s > fastest round {renderFixed 4 round}s"
    else none

/-- The least that was free, unless it was never measured. -/
def scarceTest (name : String) : Test :=
  .ratio ⟨name, Column.minNot0⟩ ⟨name, Column.minNot0⟩ fun least _ =>
    if least < minFreeBytes then some s!"{renderFixed 1 (quotient (quotient least kibi) kibi)} MiB"
    else none

/-- The most memory that was in use, against the limit. -/
def memoryUsedTest : Test :=
  .ratio ⟨"memTotUsed", Column.max⟩ ⟨"memMax", Column.max⟩ fun used limit =>
    if used > maxMemoryFraction * limit.value then
      some s!"{renderFixed 1 (quotient used limit * 100.0)}% used"
    else none

/-- The tests in the order of the thresholds. -/
def tests : List Test :=
  [latencyTest, consensusQueueTest, stateHashingTest, scarceTest "memFree",
   scarceTest "diskspaceFree", memoryUsedTest]

/-- A threshold that is a given test of every table. -/
def Applies (t : Threshold) (test : Test) : Prop := ∀ table, t.breach? table = test.breach? table

theorem latency_applies : Applies latency latencyTest := by
  intro table
  show (table.column? "secC2C").bind _ = (table.column? "secC2C").bind fun _ =>
    (table.column? "secC2C").bind _
  cases table.column? "secC2C" with
  | none => rfl
  | some c =>
    dsimp only [Option.bind_some]
    rcases Divisor.of?_cases (isFinite_minNot0 c) with ⟨hle, hnone⟩ | ⟨d, hle, hsome, hvalue⟩
    · rw [if_pos hle, hnone]
      rfl
    · rw [if_neg hle, hsome, ← hvalue]
      rfl

theorem consensusQueue_applies : Applies consensusQueue consensusQueueTest := fun _ => rfl

theorem stateHashing_applies : Applies stateHashing stateHashingTest := by
  intro table
  show ((table.column? "rounds/sec").bind fun rounds =>
      (table.column? "sigStateHashTime").bind _) =
    (table.column? "sigStateHashTime").bind fun hashing => (table.column? "rounds/sec").bind _
  -- the two columns are asked for in either order
  cases table.column? "rounds/sec" with
  | none => cases table.column? "sigStateHashTime" <;> rfl
  | some rounds =>
    cases table.column? "sigStateHashTime" with
    | none => rfl
    | some hashing =>
      dsimp only [Option.bind_some]
      rcases Divisor.of?_cases (isFinite_max rounds) with ⟨hle, hnone⟩ | ⟨d, hle, hsome, hvalue⟩
      · rw [if_pos hle, hnone]
        rfl
      · rw [if_neg hle, hsome, ← hvalue]
        rfl

theorem scarce_applies (title name : String) :
    Applies (.onColumn title name scarce?) (scarceTest name) := by
  intro table
  show (table.column? name).bind scarce? =
    (table.column? name).bind fun _ => (table.column? name).bind _
  cases table.column? name with
  | none => rfl
  | some c =>
    show scarce? c = (Divisor.of? c.minNot0).bind _
    unfold scarce? Divisor.of?
    by_cases hpos : 0.0 < (c.minNot0 : Float)
    · rw [dif_pos hpos]
      simp only [hpos, decide_true, Bool.true_and, decide_eq_true_eq]
      rfl
    · rw [dif_neg hpos]
      simp only [hpos, decide_false, Bool.false_and, Bool.false_eq_true, if_false]
      rfl

theorem memoryUsed_applies : Applies memoryUsed memoryUsedTest := by
  intro table
  show ((table.column? "memTotUsed").bind fun used => (table.column? "memMax").bind _) =
    (table.column? "memTotUsed").bind fun used => (table.column? "memMax").bind _
  cases table.column? "memTotUsed" with
  | none => rfl
  | some used =>
    cases table.column? "memMax" with
    | none => rfl
    | some limit =>
      dsimp only [Option.bind_some]
      rcases Divisor.of?_cases (isFinite_max limit) with ⟨hle, hnone⟩ | ⟨d, hle, hsome, hvalue⟩
      · rw [if_pos hle, hnone]
        rfl
      · rw [if_neg hle, hsome, ← hvalue]
        rfl

/-- **The thresholds divide by numbers above zero only.** -/
theorem thresholds_apply : List.Forall₂ Applies thresholds tests :=
  .cons latency_applies <| .cons consensusQueue_applies <| .cons stateHashing_applies <|
    .cons (scarce_applies _ _) <| .cons (scarce_applies _ _) <| .cons memoryUsed_applies .nil

/-! ### Places -/

/-- The metrics of the node at a place. -/
def metricsAt (nodes : List Node) (i : Nat) : Option Table := nodes[i]?.bind (·.metrics)

/-- The places of the nodes without metrics. -/
def unmeasured (nodes : List Node) : List Nat :=
  (List.range nodes.length).filter fun i => (metricsAt nodes i).isNone

/-- How the node at a place breaches a threshold, if it does. -/
def breachAt? (t : Threshold) (nodes : List Node) (i : Nat) : Option String :=
  (metricsAt nodes i).bind t.breach?

/-- The places of the nodes that breach a threshold. -/
def breaching (t : Threshold) (nodes : List Node) : List Nat :=
  (List.range nodes.length).filter fun i => (breachAt? t nodes i).isSome

/-- What a warning says of the node at a place. -/
def listing (t : Threshold) (nodes : List Node) (i : Nat) : String :=
  let how := (breachAt? t nodes i).getD ""
  s!"node {i}: {how}"

/-- The warning on a threshold, if some node breaches it. -/
def warning? (t : Threshold) (nodes : List Node) : Option String :=
  let places := breaching t nodes
  if places = [] then none
  else
    let details := String.intercalate ", " (places.map (listing t nodes))
    some s!"{t.title} on {places.length} node(s) ({details})"

/-- What goes by items and their places may go by the places alone. -/
theorem mapIdx_eq_map_range {α β : Type} {f : Nat → α → β} {g : Nat → β} {xs : List α}
    (h : ∀ i x, xs[i]? = some x → f i x = g i) :
    xs.mapIdx f = (List.range xs.length).map g := by
  refine List.ext_getElem (by simp) fun i hi _ => ?_
  rw [List.length_mapIdx] at hi
  rw [List.getElem_mapIdx, List.getElem_map, List.getElem_range]
  exact h i _ (List.getElem?_eq_getElem hi)

theorem metricsAt_of_getElem? {node : Node} (h : nodes[i]? = some node) :
    metricsAt nodes i = node.metrics := by
  unfold metricsAt
  rw [h]
  rfl

/-- **A check finds the places at which a threshold is breached**, in their order. -/
theorem offenders_eq (t : Threshold) (nodes : List Node) :
    offenders t nodes =
      (breaching t nodes).map fun i => (i, (breachAt? t nodes i).getD "") := by
  have hplace : ∀ i node, nodes[i]? = some node →
      (node.metrics.bind t.breach?).map (i, ·) = (breachAt? t nodes i).map (i, ·) := by
    intro i node hnode
    unfold breachAt?
    rw [metricsAt_of_getElem? hnode]
  unfold offenders breaching
  rw [mapIdx_eq_map_range hplace, List.filterMap_map, ← List.filterMap_eq_filter,
    List.map_filterMap]
  apply List.filterMap_congr
  intro i _
  cases hbreach : breachAt? t nodes i <;> simp [Option.guard, hbreach]

theorem breachFindings_eq (t : Threshold) (nodes : List Node) :
    breachFindings t nodes = ((warning? t nodes).map Finding.warning).toList := by
  let found (i : Nat) : Nat × String := (i, (breachAt? t nodes i).getD "")
  have hdetails : ∀ places : List Nat,
      ((places.map found).map fun p => s!"node {p.1}: {p.2}") = places.map (listing t nodes) :=
    fun places => List.map_map
  unfold breachFindings warning?
  rw [offenders_eq]
  cases breaching t nodes with
  | nil => rfl
  | cons i places =>
    rw [if_neg (List.cons_ne_nil i places), ← hdetails, ← List.length_map found]
    rfl

/-- What the check says of the thresholds. -/
theorem filterMap_breaches (g : Finding → Option String) (nodes : List Node) :
    (thresholds.flatMap (breachFindings · nodes)).filterMap g =
      thresholds.filterMap fun t =>
        (warning? t nodes).bind fun message => g (.warning message) := by
  rw [List.filterMap_flatMap, List.filterMap_eq_flatMap_toList]
  apply List.flatMap_congr
  intro t _
  rw [breachFindings_eq]
  cases warning? t nodes with
  | none => rfl
  | some message => cases hg : g (.warning message) <;> simp [hg]

/-- The error on a node without metrics. -/
def missingMessage (i : Nat) : String := s!"Node {i} metrics CSV is missing or unreadable"

/-- What the check says of nodes without metrics. -/
theorem filterMap_missing (g : Finding → Option String) (hevent : ∀ e, g (.event e) = none)
    (validator : String) (nodes : List Node) :
    (nodes.mapIdx (missingFindings validator)).flatten.filterMap g =
      (unmeasured nodes).filterMap fun i => g (.error (missingMessage i)) := by
  have hplace : ∀ i node, nodes[i]? = some node →
      (missingFindings validator i node).filterMap g =
        (if (metricsAt nodes i).isNone then g (.error (missingMessage i)) else none).toList := by
    intro i node hnode
    unfold missingFindings
    rw [metricsAt_of_getElem? hnode]
    cases node.metrics with
    | some table => rfl
    | none =>
      show List.filterMap g [.event _, .error (missingMessage i)] =
        (g (.error (missingMessage i))).toList
      rw [List.filterMap_cons_none (hevent _)]
      cases hg : g (.error (missingMessage i)) <;> simp [hg]
  unfold unmeasured
  rw [filterMap_flatten_mapIdx, mapIdx_eq_map_range hplace, List.filterMap_filter,
    List.filterMap_eq_flatMap_toList]
  rfl

/-- **What the checks say**, by the places of nodes and by the thresholds. -/
theorem filterMap_findings (g : Finding → Option String) (hevent : ∀ e, g (.event e) = none)
    (validator : String) (nodes : List Node) :
    (findings validator nodes).filterMap g =
      ((unmeasured nodes).filterMap fun i => g (.error (missingMessage i))) ++
        thresholds.filterMap fun t =>
          (warning? t nodes).bind fun message => g (.warning message) := by
  unfold findings
  rw [List.filterMap_append, filterMap_missing g hevent, filterMap_breaches]

theorem mem_breaching : i ∈ breaching t nodes ↔ (breachAt? t nodes i).isSome = true := by
  unfold breaching
  rw [List.mem_filter, List.mem_range, and_iff_right_iff_imp]
  intro h
  -- there is nothing to breach beyond the last node
  by_contra hi
  have hnode : nodes[i]? = none := List.getElem?_eq_none (Nat.le_of_not_lt hi)
  unfold breachAt? metricsAt at h
  rw [hnode] at h
  cases h

/-- **A breach is a matter of the node's own metrics.** -/
theorem breachAt?_congr (t : Threshold) (h : metricsAt nodes' i = metricsAt nodes i) :
    (i ∈ breaching t nodes' ↔ i ∈ breaching t nodes) ∧ listing t nodes' i = listing t nodes i := by
  have hsame : breachAt? t nodes' i = breachAt? t nodes i := by
    unfold breachAt?
    rw [h]
  unfold listing
  rw [mem_breaching, mem_breaching, hsame]
  exact ⟨Iff.rfl, rfl⟩

theorem Applies.ready {test : Test} (h : Applies t test) (hi : i ∈ breaching t nodes) :
    ∃ table, metricsAt nodes i = some table ∧ test.Ready table := by
  obtain ⟨how, hhow⟩ := Option.isSome_iff_exists.1 (mem_breaching.1 hi)
  obtain ⟨table, htable, hbreach⟩ := Option.bind_eq_some_iff.1 hhow
  rw [h table] at hbreach
  exact ⟨table, htable, Test.ready_of_breach? hbreach⟩

/-- **The checks of metrics are advisory and name exactly the offenders.** They add no infos, one
error for each node without metrics in the order of the nodes, and for each of the six thresholds in
their order at most one warning: there is one exactly if some node breaches the threshold, and it
has the number of these nodes and lists their places in ascending order. Whether a node is listed,
and how, depends on its own metrics alone. Each threshold is a test that divides by numbers above
zero only, and a node that breaches it has the columns that the test asks for and a base above
zero. -/
theorem offenders_named (validator : String) (nodes : List Node) (r : Report) :
    let after := r.extend (findings validator nodes)
    after.infos = r.infos ∧
      after.errors = r.errors ++ (unmeasured nodes).map missingMessage ∧
      thresholds.length = 6 ∧
      after.warnings = r.warnings ++ thresholds.filterMap (warning? · nodes) ∧
      (∀ t, (warning? t nodes = none ↔ ∀ i, i ∉ breaching t nodes) ∧
        (breaching t nodes).Pairwise (· < ·) ∧
        ∀ i, (i ∈ breaching t nodes ↔ ∃ table how, metricsAt nodes i = some table ∧
            t.breach? table = some how ∧ listing t nodes i = s!"node {i}: {how}") ∧
          ∀ nodes', metricsAt nodes' i = metricsAt nodes i →
            (i ∈ breaching t nodes' ↔ i ∈ breaching t nodes) ∧
              listing t nodes' i = listing t nodes i) ∧
      List.Forall₂ (fun t test => (∀ table, t.breach? table = test.breach? table) ∧
        ∀ i ∈ breaching t nodes, ∃ table, metricsAt nodes i = some table ∧ test.Ready table)
        thresholds tests := by
  refine ⟨?_, ?_, rfl, ?_, fun t => ⟨?_, ?_, fun i => ⟨?_, fun nodes' => breachAt?_congr t⟩⟩, ?_⟩
  · show r.infos ++ (findings validator nodes).filterMap Finding.info? = _
    rw [filterMap_findings _ fun _ => rfl]
    simp [Finding.info?]
  · show r.errors ++ (findings validator nodes).filterMap Finding.error? = _
    rw [filterMap_findings _ fun _ => rfl]
    simp [Finding.error?]
  · show r.warnings ++ (findings validator nodes).filterMap Finding.warning? = _
    rw [filterMap_findings _ fun _ => rfl]
    simp [Finding.warning?]
  · unfold warning?
    rw [List.eq_nil_iff_forall_not_mem.symm]
    by_cases hplaces : breaching t nodes = []
    · simp [hplaces]
    · simp [hplaces]
  · exact List.Pairwise.filter _ List.pairwise_lt_range
  · rw [mem_breaching, Option.isSome_iff_exists]
    constructor
    · rintro ⟨how, hhow⟩
      obtain ⟨table, htable, hbreach⟩ := Option.bind_eq_some_iff.1 hhow
      refine ⟨table, how, htable, hbreach, ?_⟩
      unfold listing
      rw [hhow]
      rfl
    · rintro ⟨table, how, htable, hbreach, -⟩
      exact ⟨how, Option.bind_eq_some_iff.2 ⟨table, htable, hbreach⟩⟩
  · exact thresholds_apply.imp fun _ _ happlies => ⟨happlies, fun _ => happlies.ready⟩

end RunAudit.Check.Statistics
