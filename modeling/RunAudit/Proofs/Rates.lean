import Mathlib.Algebra.BigOperators.Group.List.Basic
import Mathlib.Data.List.Nodup
import Mathlib.Data.List.Perm.Basic
import RunAudit.Experiment.Validator
import RunAudit.Proofs.Outcomes
import RunAudit.Proofs.Plateaus
import RunAudit.Proofs.Trimming

/-!
# Phases against rates

The check of throttle values adds up the throughput of all nodes that have it, as far as the
shortest series goes, and compares the phases of the sum, one by one, with the rates that were asked
for. A node without throughput is an error and counts neither in the sum nor among the nodes that it
is divided by. In exact arithmetic the sum does not depend on the order of the nodes, and neither
does anything that is said of a phase.

* `summed`, `networkSeries_eq`: the throughput of the network, place by place.
* `summed_perm`: it does not depend on the order of the columns.
* `Comparison`, `comparisons`: which phases are judged, against which rates.
* `phaseFindings_eq`, `filterMap_phaseFindings`: what is said of one phase and of all of them.
* `names_message`: a message on a phase names that phase and no other.
* `named_once`: one message names each phase that is judged.
* `phases_judged`: what the check reports.
-/

namespace RunAudit.Check.Throttle

open Metrics Throughput

variable {columns columns' : List Column} {expected phases : List Rat} {validator : String}
  {nodes nodes' : List Node}

/-! ### The throughput of the network -/

/-- **The throughput of the network**: at each place of the shortest column, the sum of the samples
that all columns have there. -/
def summed (columns : List Column) : List Rat :=
  (List.range (shortest columns)).map fun t => (columns.map fun c => c.values.getD t 0).sum

theorem shortest_le {c : Column} (h : c ∈ columns) : shortest columns ≤ c.samples.length := by
  have hmem : c.samples.length ∈ columns.map (·.samples.length) := List.mem_map_of_mem h
  unfold shortest
  cases hmin : (columns.map (·.samples.length)).min? with
  | none => exact Nat.zero_le _
  | some n => exact (List.min?_eq_some_iff.1 hmin).2 _ hmem

theorem shortest_perm (h : columns.Perm columns') : shortest columns = shortest columns' := by
  have hlengths := h.map (·.samples.length)
  unfold shortest
  congr 1
  refine Option.ext fun n => ?_
  rw [List.min?_eq_some_iff, List.min?_eq_some_iff, hlengths.mem_iff]
  simp only [hlengths.mem_iff]

/-- A column that is long enough is added place by place. No total is dropped. -/
theorem zipWith_values {c : Column} {totals : List Rat} (h : totals.length ≤ c.samples.length) :
    totals.zipWith (· + ·) c.values = totals.mapIdx fun t total => total + c.values.getD t 0 := by
  refine List.ext_getElem ?_ fun t ht ht' => ?_
  · rw [List.length_zipWith, List.length_mapIdx, Column.values, List.length_map]
    exact Nat.min_eq_left h
  · rw [List.length_zipWith, Nat.lt_min] at ht
    rw [List.getElem_zipWith, List.getElem_mapIdx, List.getD_eq_getElem?_getD,
      List.getElem?_eq_getElem ht.2, Option.getD_some]

theorem foldl_zipWith (totals : List Rat) (h : ∀ c ∈ columns, totals.length ≤ c.samples.length) :
    columns.foldl (fun totals c => totals.zipWith (· + ·) c.values) totals =
      totals.mapIdx fun t total => total + (columns.map fun c => c.values.getD t 0).sum := by
  -- the totals change from column to column, and their number does not
  induction columns generalizing totals with
  | nil =>
    simp only [List.foldl_nil, List.map_nil, List.sum_nil, add_zero]
    exact (List.mapIdx_eq_iff.2 fun t => Option.map_id'.symm).symm
  | cons c columns ih =>
    obtain ⟨hc, hcolumns⟩ := List.forall_mem_cons.1 h
    rw [List.foldl_cons, zipWith_values hc, ih _ (by simpa using hcolumns), List.mapIdx_mapIdx]
    simp only [Function.comp_def, List.map_cons, List.sum_cons, add_assoc]

/-- **The columns may be added one by one** or all at once. -/
theorem networkSeries_eq (columns : List Column) : networkSeries columns = summed columns := by
  have hlength : ∀ c ∈ columns,
      (List.replicate (shortest columns) (0 : Rat)).length ≤ c.samples.length := by
    intro c hc
    rw [List.length_replicate]
    exact shortest_le hc
  refine (foldl_zipWith _ hlength).trans ?_
  refine List.ext_getElem (by simp [summed]) fun t ht ht' => ?_
  simp [summed]

theorem summed_perm (h : columns.Perm columns') : summed columns = summed columns' := by
  unfold summed
  rw [shortest_perm h]
  refine List.map_congr_left fun t _ => ?_
  exact (h.map _).sum_eq

/-! ### One phase -/

/-- A phase, with the rate that was asked for and the throughput that the network settled at. -/
@[ext]
structure Comparison where
  phase : Nat
  expected : Rat
  actual : Rat
  deriving DecidableEq

namespace Comparison

/-- By how much a phase is off, as a part of the expected rate. -/
def deviation (c : Comparison) : Rat := |c.actual - c.expected| / c.expected

/-- A phase that is off by more than a tenth. -/
def Off (c : Comparison) : Prop := 1 / 10 < c.deviation

instance : DecidablePred Off := fun c => inferInstanceAs (Decidable (1 / 10 < c.deviation))

/-- What is said of a phase. -/
def message (c : Comparison) : String :=
  let expected := Quantity.render 2 c.expected
  let actual := Quantity.render 2 c.actual
  if c.Off then
    s!"Throttle phase {c.phase} expected {expected} trans/sec per node but "
      ++ s!"stabilized at {actual} ({Quantity.render 0 (c.deviation * 100)}% off)"
  else
    s!"Throttle phase {c.phase} stabilized at {actual} trans/sec per node "
      ++ s!"(expected {expected})"

/-- The finding on a phase. -/
def finding (c : Comparison) : Finding := if c.Off then .warning c.message else .info c.message

end Comparison

theorem maxDeviation_rat : (maxDeviation : Rat) = 1 / 10 := by
  have h : (0.10 : Rat) = 1 / 10 := by norm_num
  exact h

theorem ofNat_rat (n : Nat) : (Quantity.ofNat n : Rat) = n := rfl

/-- **What is said of one phase.** One without an expected rate is not judged. -/
theorem phaseFindings_eq (c : Comparison) :
    phaseFindings c.phase c.expected c.actual =
      .event (.throttlePhase c.phase (Quantity.render 2 c.expected) (Quantity.render 2 c.actual)) ::
        if 0 < c.expected then [c.finding] else [] := by
  unfold phaseFindings
  simp only [abs_rat, maxDeviation_rat, ofNat_rat, Nat.cast_zero, Nat.cast_ofNat]
  by_cases hpos : 0 < c.expected
  · rw [if_pos hpos, if_neg (not_le.2 hpos)]
    by_cases hoff : c.Off
    · rw [Comparison.finding, if_pos hoff, Comparison.message, if_pos hoff]
      exact if_pos hoff
    · rw [Comparison.finding, if_neg hoff, Comparison.message, if_neg hoff]
      exact if_neg hoff
  · rw [if_neg hpos, if_pos (not_lt.1 hpos)]

/-! ### Names of phases -/

/-- How a message on a phase starts. -/
def heading (phase : Nat) : String := "Throttle phase " ++ toString phase ++ " "

/-- A message that names a phase. -/
def Names (phase : Nat) (message : String) : Prop := (heading phase).toList <+: message.toList

instance (phase : Nat) : DecidablePred (Names phase) := fun message =>
  inferInstanceAs (Decidable (_ <+: message.toList))

theorem heading_eq (phase : Nat) : heading phase = "Throttle phase " ++ toString phase ++ " " := rfl

theorem toList_heading (phase : Nat) :
    (heading phase).toList = "Throttle phase ".toList ++ (Nat.toDigits 10 phase ++ [' ']) := by
  simp [heading_eq]

/-- A number ends at the blank behind it. -/
theorem takeWhile_toDigits (n : Nat) (later : List Char) :
    (Nat.toDigits 10 n ++ ' ' :: later).takeWhile (·.isDigit) = Nat.toDigits 10 n := by
  refine Text.takeWhile_append_stop ?_ ?_
  · intro c hc
    exact Nat.isDigit_of_mem_toDigits (by decide) (by decide) hc
  · rintro c ⟨⟩
    rfl

/-- **A message names one phase**, since the number of the phase ends at a blank. -/
theorem names_heading {i j : Nat} (rest : String) : Names i (heading j ++ rest) ↔ i = j := by
  constructor
  · intro h
    unfold Names at h
    rw [String.toList_append, toList_heading, toList_heading, List.append_assoc,
      List.prefix_append_right_inj, List.append_assoc] at h
    obtain ⟨tail, htail⟩ := h
    rw [List.append_assoc] at htail
    -- both numbers are the digits up to the first character that is none
    have hdigits : Nat.toDigits 10 i = Nat.toDigits 10 j := by
      rw [← takeWhile_toDigits i tail, ← takeWhile_toDigits j rest.toList]
      exact congrArg _ htail
    rw [← Nat.ofDigitChars_ten_toDigits (n := i), hdigits, Nat.ofDigitChars_ten_toDigits]
  · rintro rfl
    unfold Names
    rw [String.toList_append]
    exact List.prefix_append _ _

theorem names_message {c : Comparison} {i : Nat} : Names i c.message ↔ i = c.phase := by
  obtain ⟨rest, hrest⟩ : ∃ rest, c.message = heading c.phase ++ rest := by
    unfold Comparison.message
    simp only [heading_eq, String.append_assoc]
    split
    · exact ⟨"expected " ++ (Quantity.render 2 c.expected ++ (" trans/sec per node but " ++
        ("stabilized at " ++ (Quantity.render 2 c.actual ++ (" (" ++
          (Quantity.render 0 (c.deviation * 100) ++ "% off)")))))), rfl⟩
    · exact ⟨"stabilized at " ++ (Quantity.render 2 c.actual ++ (" trans/sec per node " ++
        ("(expected " ++ (Quantity.render 2 c.expected ++ ")")))), rfl⟩
  rw [hrest, names_heading]

theorem throttle_of_names {i : Nat} {message : String} (h : Names i message) :
    "Throttle".toList <+: message.toList := by
  refine List.IsPrefix.trans ?_ h
  rw [toList_heading]
  exact ⟨" phase ".toList ++ (Nat.toDigits 10 i ++ [' ']), rfl⟩

/-! ### All phases -/

/-- The phases that are judged: those with an expected rate above zero. -/
def comparisons (expected phases : List Rat) : List Comparison :=
  ((expected.zip phases).mapIdx fun i (e, a) => ⟨i, e, a⟩).filter fun c => 0 < c.expected

/-- What is said if there are fewer phases than expected rates. -/
def tooFew (expected phases : List Rat) : List String :=
  if phases.length < expected.length then
    [s!"Throughput stabilized {phases.length} times but {expected.length} "
      ++ "throttle phases were configured"]
  else []

theorem mem_comparisons {c : Comparison} :
    c ∈ comparisons expected phases ↔
      expected[c.phase]? = some c.expected ∧ phases[c.phase]? = some c.actual ∧
        0 < c.expected := by
  unfold comparisons
  rw [List.mem_filter, List.mem_iff_getElem?, decide_eq_true_iff, ← and_assoc]
  refine and_congr_left fun _ => ?_
  simp only [List.getElem?_mapIdx, Option.map_eq_some_iff, List.getElem?_zip_eq_some]
  constructor
  · rintro ⟨i, ⟨e, a⟩, hi, rfl⟩
    exact hi
  · intro h
    exact ⟨c.phase, (c.expected, c.actual), h, rfl⟩

theorem not_names_tooFew (i : Nat) : ∀ message ∈ tooFew expected phases, ¬ Names i message := by
  intro message hmessage h
  unfold tooFew at hmessage
  split at hmessage
  · rw [List.mem_singleton.1 hmessage] at h
    have hstart : "Throttle".toList <+: ("Throughput stabilized " ++ toString phases.length
        ++ " times but " ++ toString expected.length ++ " "
        ++ "throttle phases were configured").toList :=
      throttle_of_names h
    simp at hstart
  · cases hmessage

/-- **No phase is judged twice.** -/
theorem filter_phase {c : Comparison} (h : c ∈ comparisons expected phases) :
    (comparisons expected phases).filter (fun c' => c.phase = c'.phase) = [c] := by
  -- the numbers of phases are a range, so no comparison is listed twice
  have hphases : (((expected.zip phases).mapIdx fun i (e, a) => Comparison.mk i e a).map
      Comparison.phase) = List.range (expected.zip phases).length :=
    List.ext_getElem (by simp) (by simp)
  have hnodup : (comparisons expected phases).Nodup := by
    refine List.Nodup.filter _ (List.Nodup.of_map Comparison.phase ?_)
    rw [hphases]
    exact List.nodup_range
  have hsame : ∀ c' ∈ comparisons expected phases,
      decide (c.phase = c'.phase) = decide (c' = c) := by
    intro c' hc'
    refine decide_eq_decide.2 ⟨fun heq => ?_, fun heq => heq ▸ rfl⟩
    obtain ⟨he, ha, -⟩ := mem_comparisons.1 h
    obtain ⟨he', ha', -⟩ := mem_comparisons.1 hc'
    rw [heq] at he ha
    -- both rates are read at the same place
    rw [Comparison.ext_iff]
    exact ⟨heq.symm, Option.some.inj (he'.symm.trans he), Option.some.inj (ha'.symm.trans ha)⟩
  rw [List.filter_congr hsame, List.filter_eq, List.count_eq_one_of_mem hnodup h]
  rfl

/-- Of some of the messages on phases, those that name a phase that is judged. -/
theorem filter_names {c : Comparison} (h : c ∈ comparisons expected phases)
    (p : Comparison → Prop) [DecidablePred p] :
    (((comparisons expected phases).filter p).map Comparison.message).filter (Names c.phase) =
      if p c then [c.message] else [] := by
  -- each message names its own phase, so the filter may be put ahead of the map
  have hnames : (fun c' : Comparison => decide (Names c.phase c'.message)) =
      fun c' => decide (c.phase = c'.phase) := by
    funext c'
    exact decide_eq_decide.2 names_message
  rw [List.filter_map, Function.comp_def, hnames, List.filter_filter]
  simp only [Bool.and_comm]
  rw [← List.filter_filter, filter_phase h]
  by_cases hp : p c <;> simp [hp]

/-- **All that is said of phases**, picked by severity. -/
theorem filterMap_phaseFindings (pick : Finding → Option String) (p : Comparison → Prop)
    [DecidablePred p] (hevent : ∀ e, pick (.event e) = none)
    (hpick : ∀ c, pick c.finding = if p c then some c.message else none) :
    ((expected.zip phases).mapIdx fun i (e, a) => phaseFindings i e a).flatten.filterMap pick =
      ((comparisons expected phases).filter p).map Comparison.message := by
  have hall : ((expected.zip phases).mapIdx fun i (e, a) => phaseFindings i e a) =
      (((expected.zip phases).mapIdx fun i (e, a) => Comparison.mk i e a).map fun c =>
        phaseFindings c.phase c.expected c.actual) :=
    List.ext_getElem (by simp) (by simp)
  rw [hall, ← List.flatMap_def, List.filterMap_flatMap]
  unfold comparisons
  induction (expected.zip phases).mapIdx fun i (e, a) => Comparison.mk i e a with
  | nil => rfl
  | cons c cs ih =>
    rw [List.flatMap_cons, ih, phaseFindings_eq, List.filterMap_cons, hevent]
    by_cases hpos : 0 < c.expected
    · by_cases hp : p c <;> simp [hpos, hp, hpick]
    · simp [hpos]

theorem infos_comparisonFindings :
    (comparisonFindings expected phases).filterMap Finding.info? =
      ((comparisons expected phases).filter fun c => ¬ c.Off).map Comparison.message := by
  unfold comparisonFindings
  cases phases with
  | nil => simp [comparisons, Finding.info?]
  | cons a phases =>
    rw [List.isEmpty_cons, if_neg Bool.false_ne_true, List.filterMap_append,
      filterMap_phaseFindings Finding.info? (fun c => ¬ c.Off) (fun _ => rfl) fun c => ?_]
    · split <;> simp [Finding.info?]
    · unfold Comparison.finding
      split <;> simp [Finding.info?, *]

theorem warnings_comparisonFindings :
    (comparisonFindings expected phases).filterMap Finding.warning? =
      if phases = [] then ["Throughput never stabilized"]
      else ((comparisons expected phases).filter Comparison.Off).map Comparison.message
        ++ tooFew expected phases := by
  unfold comparisonFindings
  cases phases with
  | nil => rfl
  | cons a phases =>
    rw [List.isEmpty_cons, if_neg Bool.false_ne_true, List.filterMap_append,
      filterMap_phaseFindings Finding.warning? Comparison.Off (fun _ => rfl) fun c => ?_]
    · rw [if_neg (List.cons_ne_nil a phases), tooFew]
      split <;> rfl
    · unfold Comparison.finding
      split <;> simp [Finding.warning?, *]

theorem faultless_comparisonFindings : Faultless (comparisonFindings expected phases) := by
  unfold comparisonFindings
  split
  · simp
  · rw [faultless_append, faultless_mapIdx]
    constructor
    · rintro i ⟨e, a⟩ -
      change Faultless (phaseFindings i e a)
      rw [phaseFindings_eq ⟨i, e, a⟩, Comparison.finding]
      split_ifs <;> simp
    · split <;> simp

/-! ### The report -/

/-- The numbers of the nodes that have no throughput. -/
def missing (nodes : List Node) : List Nat :=
  (nodes.zipIdx.filter fun (n, _) => (n.column? rateMetric).isNone).map (·.2)

/-- What is said of a node that has no throughput. -/
def missingMessage (node : Nat) : String := s!"Node {node} has no {rateMetric} metric"

/-- **The phases of the network**, per node that has a throughput. -/
def networkPhases (nodes : List Node) : List Rat :=
  stablePhases (summed (rateColumns nodes)) (rateColumns nodes).length

theorem networkPhases_perm (h : nodes.Perm nodes') :
    networkPhases nodes = networkPhases nodes' := by
  have hcolumns : (rateColumns nodes).Perm (rateColumns nodes') := h.filterMap _
  unfold networkPhases
  rw [summed_perm hcolumns, hcolumns.length_eq]

theorem not_names_missingMessage (i node : Nat) : ¬ Names i (missingMessage node) := by
  intro h
  have hstart : "Throttle".toList <+:
      ("Node " ++ toString node ++ " has no " ++ rateMetric ++ " metric").toList :=
    throttle_of_names h
  simp at hstart

/-- **A node without throughput is an error**, and nothing else is said of it. -/
theorem filterMap_missingFindings (pick : Finding → Option String)
    (hevent : ∀ e, pick (.event e) = none) :
    (nodes.mapIdx (missingFindings validator)).flatten.filterMap pick =
      (missing nodes).filterMap fun i => pick (.error (missingMessage i)) := by
  rw [List.mapIdx_eq_zipIdx_map, ← List.flatMap_def, List.filterMap_flatMap, missing]
  induction nodes.zipIdx with
  | nil => rfl
  | cons x xs ih =>
    obtain ⟨n, i⟩ := x
    rw [List.flatMap_cons, ih, List.filter_cons]
    change (missingFindings validator i n).filterMap pick ++ _ = _
    cases hc : n.column? rateMetric with
    | none =>
      have hsaid : missingFindings validator i n =
          [.event (.metricsMissing validator i), .error (missingMessage i)] := by
        unfold missingFindings
        rw [hc]
        rfl
      simp only [hsaid, hc, hevent, Option.isNone_none, if_true, List.map_cons, List.filterMap_cons,
        List.filterMap_nil]
      split <;> rfl
    | some c => simp [missingFindings, hc]

section General

variable {α : Type} [Quantity α]

/-- **The report of the check** against a list of rates. -/
def report (validator : String) (expected : List α) (nodes : List Node) : Report :=
  { Report.extend { validator } (findings validator expected nodes) with validated := true }

end General

/-- Both validators of throttle values report this, in doubles. -/
theorem report_validator (nodes : List Node) (rates : List Float) :
    (Validator.throttle nodes rates).report = .ok (report Kind.throttle.name rates nodes) ∧
      (Validator.appThrottle nodes rates).report =
        .ok (report Kind.appThrottle.name rates nodes) :=
  ⟨rfl, rfl⟩

section Rates

variable (validator) (nodes) (hne : expected ≠ [])

include hne

/-- What is found if there are rates to compare with. -/
theorem filterMap_findings (pick : Finding → Option String)
    (hevent : ∀ e, pick (.event e) = none) :
    (findings validator expected nodes).filterMap pick =
      ((missing nodes).filterMap fun i => pick (.error (missingMessage i))) ++
        (comparisonFindings expected (networkPhases nodes)).filterMap pick := by
  have hfull : ¬ expected.isEmpty = true := by rwa [List.isEmpty_iff]
  unfold findings
  rw [if_neg hfull, List.filterMap_append, filterMap_missingFindings pick hevent, networkSeries_eq]
  rfl

theorem infos_report : (report validator expected nodes).infos =
    ((comparisons expected (networkPhases nodes)).filter fun c => ¬ c.Off).map
      Comparison.message := by
  change (findings validator expected nodes).filterMap Finding.info? = _
  rw [filterMap_findings validator nodes hne _ fun _ => rfl, infos_comparisonFindings]
  simp [Finding.info?]

theorem warnings_report : (report validator expected nodes).warnings =
    if networkPhases nodes = [] then ["Throughput never stabilized"]
    else ((comparisons expected (networkPhases nodes)).filter Comparison.Off).map
      Comparison.message ++ tooFew expected (networkPhases nodes) := by
  change (findings validator expected nodes).filterMap Finding.warning? = _
  rw [filterMap_findings validator nodes hne _ fun _ => rfl, warnings_comparisonFindings]
  simp [Finding.warning?]

theorem errors_report :
    (report validator expected nodes).errors = (missing nodes).map missingMessage := by
  have herrors :
      (comparisonFindings expected (networkPhases nodes)).filterMap Finding.error? = [] :=
    faultless_comparisonFindings
  change (findings validator expected nodes).filterMap Finding.error? = _
  rw [filterMap_findings validator nodes hne _ fun _ => rfl, herrors, List.append_nil]
  simp [Finding.error?]

end Rates

/-- Where the phase that is judged is named. -/
theorem filter_report (validator : String) {c : Comparison}
    (hc : c ∈ comparisons expected (networkPhases nodes)) :
    let r := report validator expected nodes
    r.infos.filter (Names c.phase) = (if c.Off then [] else [c.message]) ∧
      r.warnings.filter (Names c.phase) = (if c.Off then [c.message] else []) ∧
      r.errors.filter (Names c.phase) = [] := by
  obtain ⟨hexpected, hphase, -⟩ := mem_comparisons.1 hc
  have hne : expected ≠ [] := by
    rintro rfl
    cases hexpected
  have hphases : networkPhases nodes ≠ [] := by
    intro hnil
    rw [hnil] at hphase
    cases hphase
  have htooFew : (tooFew expected (networkPhases nodes)).filter (Names c.phase) = [] := by
    simpa using not_names_tooFew c.phase
  refine ⟨?_, ?_, ?_⟩
  · rw [infos_report validator nodes hne, filter_names hc]
    simp only [ite_not]
  · rw [warnings_report validator nodes hne, if_neg hphases, List.filter_append, filter_names hc,
      htooFew, List.append_nil]
  · rw [errors_report validator nodes hne, List.filter_eq_nil_iff, List.forall_mem_map]
    intro i _
    simpa using not_names_missingMessage c.phase i

/-- **One message names each phase**, and by its severity the phase is off or not. -/
theorem named_once (validator : String) {c : Comparison}
    (hc : c ∈ comparisons expected (networkPhases nodes)) :
    let r := report validator expected nodes
    r.messages.filter (Names c.phase) = [c.message] ∧ (c.message ∈ r.warnings ↔ c.Off) ∧
      (c.message ∈ r.infos ↔ ¬ c.Off) := by
  intro r
  obtain ⟨hinfos, hwarnings, herrors⟩ := filter_report validator hc
  have hmem : ∀ messages : List String,
      c.message ∈ messages ↔ c.message ∈ messages.filter (Names c.phase) := by
    intro messages
    simp [names_message]
  refine ⟨?_, ?_, ?_⟩
  · rw [Report.messages, List.filter_append, List.filter_append, hinfos, hwarnings, herrors]
    split_ifs <;> rfl
  · rw [hmem, hwarnings]
    split_ifs with hoff <;> simp [hoff]
  · rw [hmem, hinfos]
    split_ifs with hoff <;> simp [hoff]

/-- **One message for each phase.** The check of throttle values adds up the throughput of the nodes
that have it and looks for phases in the sum. Nodes without throughput are errors, and nothing else
is. Each phase that has an expected rate above zero is named by exactly one message, which is a
warning if the phase is off by more than a tenth of that rate; one more warning tells of rates that
were not reached by as many phases. What is said of phases does not depend on the order of the
nodes. Without rates there is nothing to compare. -/
theorem phases_judged (validator : String) (expected : List Rat) (nodes : List Node) :
    let r := report validator expected nodes
    let phases := stablePhases (summed (rateColumns nodes)) (rateColumns nodes).length
    (expected = [] →
        r.infos = ["No throttle values configured"] ∧ r.warnings = [] ∧ r.errors = []) ∧
      (expected ≠ [] →
        r.errors = (missing nodes).map missingMessage ∧
        (phases = [] → r.infos = [] ∧ r.warnings = ["Throughput never stabilized"]) ∧
        (phases ≠ [] →
          r.infos =
            ((comparisons expected phases).filter fun c => ¬ c.Off).map Comparison.message ∧
          r.warnings =
            ((comparisons expected phases).filter Comparison.Off).map Comparison.message
              ++ tooFew expected phases) ∧
        ∀ i e a, expected[i]? = some e → phases[i]? = some a → 0 < e →
          ∃ message, r.messages.filter (Names i) = [message] ∧
            (message ∈ r.warnings ↔ 1 / 10 < |a - e| / e) ∧
            (message ∈ r.infos ↔ ¬ 1 / 10 < |a - e| / e)) ∧
      (∀ others, nodes.Perm others →
        (report validator expected others).infos = r.infos ∧
          (report validator expected others).warnings = r.warnings) ∧
      ∀ rates : List Float,
        (Validator.throttle nodes rates).report = .ok (report Kind.throttle.name rates nodes) ∧
          (Validator.appThrottle nodes rates).report =
            .ok (report Kind.appThrottle.name rates nodes) := by
  intro r phases
  refine ⟨?_, fun hne => ⟨errors_report validator nodes hne, ?_, ?_, ?_⟩, ?_,
    report_validator nodes⟩
  · rintro rfl
    exact ⟨rfl, rfl, rfl⟩
  · intro hnone
    refine ⟨(infos_report validator nodes hne).trans ?_,
      (warnings_report validator nodes hne).trans (if_pos hnone)⟩
    have hphases : networkPhases nodes = [] := hnone
    rw [hphases, comparisons, List.zip_nil_right]
    rfl
  · intro hsome
    exact ⟨infos_report validator nodes hne,
      (warnings_report validator nodes hne).trans (if_neg hsome)⟩
  · intro i e a he ha hpos
    have hc : ⟨i, e, a⟩ ∈ comparisons expected (networkPhases nodes) :=
      mem_comparisons.2 ⟨he, ha, hpos⟩
    have hoff : Comparison.Off ⟨i, e, a⟩ ↔ 1 / 10 < |a - e| / e := Iff.rfl
    obtain ⟨hone, hwarning, hinfo⟩ := named_once validator hc
    rw [hoff] at hwarning hinfo
    exact ⟨_, hone, hwarning, hinfo⟩
  · intro others hperm
    by_cases hne : expected = []
    · subst hne
      exact ⟨rfl, rfl⟩
    · rw [infos_report validator others hne, warnings_report validator others hne,
        ← networkPhases_perm hperm]
      exact ⟨(infos_report validator nodes hne).symm, (warnings_report validator nodes hne).symm⟩

/-- A phase that is off by a tenth, on three nodes of which one has no metrics. -/
example :
    report (α := Rat) "ThrottleValidator" [100, 60]
      [{ metrics := some ⟨[⟨rateMetric, ["100", "100", "100", "100", "100", "7"]⟩]⟩ }, {},
       { metrics := some ⟨[⟨rateMetric, ["80", "80", "80", "80", "80"]⟩]⟩ }] =
      { validator := "ThrottleValidator"
        infos := ["Throttle phase 0 stabilized at 90.00 trans/sec per node (expected 100.00)"]
        warnings := ["Throughput stabilized 1 times but 2 throttle phases were configured"]
        errors := ["Node 1 has no trans/sec metric"]
        validated := true } := by
  decide +kernel

end RunAudit.Check.Throttle
