import Mathlib.Data.List.Nodup
import RunAudit.Proofs.Outcomes

/-!
# Each required validator counts once

The report on an experiment has one place for each validator that the experiment requires: among
the reports if it ran, among the failures if it did not. What stands there is what the validator
comes to when it is created and run alone.

* `nodup_required`: no two required validators share a name.
* `validator_of_outcome`: a report bears the name of its validator.
* `report?_runAll`: looking a report up by name.
* `verdict_runAll`: the verdict as a matter of counts.
* `each_required_once`: how an experiment accounts for its validators.
* `runAll_reworded`: how the errors of others are worded decides nothing.
-/

namespace RunAudit

open Config

variable {source : Source} {c : ExperimentConfig} {kind : Kind} {r : Report}

theorem nodup_names : (Kind.all.map Kind.name).Nodup := by decide +kernel

theorem mem_all (kind : Kind) : kind ∈ Kind.all := by cases kind <;> decide

/-- The name of a kind tells it apart from all others. -/
theorem name_injective {a b : Kind} (h : a.name = b.name) : a = b :=
  List.inj_on_of_nodup_map nodup_names (mem_all a) (mem_all b) h

/-- **No two required validators share a name.** -/
theorem nodup_required (c : ExperimentConfig) : ((required c).map Kind.name).Nodup :=
  nodup_names.sublist (List.filter_sublist.map Kind.name)

/-- The report of a check is made of all its findings, and is marked as complete. -/
theorem eq_of_ofAudit {σ : Type} {validator : String} {a : Audit σ Unit}
    (h : Report.ofAudit validator a = .ok r) :
    r = { Report.extend { validator } a.findings with validated := true } := by
  unfold Report.ofAudit at h
  cases ha : a.result with
  | error failure => simp [ha, Except.map] at h
  | ok u =>
    rw [ha] at h
    exact (Except.ok.inj h).symm

/-- **A report bears the name of its validator.** -/
theorem validator_of_outcome (h : outcome source c kind = .ok r) : r.validator = kind.name := by
  obtain ⟨v, hv, hr⟩ := outcome_ok h
  rw [eq_of_ofAudit hr, ← Validator.kind_of_create hv]
  rfl

/-- A validator leaves no report unless it has run to its end, so only errors make a report of an
experiment invalid. -/
theorem isValid_of_outcome (h : outcome source c kind = .ok r) :
    r.isValid = r.errors.isEmpty := by
  obtain ⟨v, -, hr⟩ := outcome_ok h
  rw [eq_of_ofAudit hr]
  rfl

/-- The names on the reports, in the order of the validators that ran. -/
theorem names_reports (source : Source) (c : ExperimentConfig) :
    (runAll source c).reports.map (·.validator) =
      ((required c).filter fun kind => (outcome source c kind).isOk).map Kind.name := by
  rw [reports_runAll]
  induction required c with
  | nil => rfl
  | cons kind kinds ih =>
    cases h : outcome source c kind with
    | error failure => simpa [h, Except.toOption, Except.isOk, Except.toBool] using ih
    | ok r =>
      simpa [h, Except.toOption, Except.isOk, Except.toBool, validator_of_outcome h] using ih

/-- The names on the failures, in the order of the validators that did not run. -/
theorem names_failures (source : Source) (c : ExperimentConfig) :
    (runAll source c).failures.map (·.1) =
      ((required c).filter fun kind => ! (outcome source c kind).isOk).map Kind.name := by
  rw [failures_runAll_eq]
  induction required c with
  | nil => rfl
  | cons kind kinds ih =>
    cases h : outcome source c kind <;>
      simpa [h, failure?, Except.isOk, Except.toBool] using ih

/-- Whatever is found under the name of a kind is what the kind comes to. -/
theorem outcome_of_report? (h : (runAll source c).report? kind.name = some r) :
    outcome source c kind = .ok r := by
  unfold ExperimentReport.report? at h
  obtain ⟨other, -, hother⟩ := (mem_reports source c r).1 (List.mem_of_find?_eq_some h)
  have hname : r.validator = kind.name :=
    beq_iff_eq.1 (List.find?_some (p := fun r : Report => r.validator == kind.name) h)
  rw [validator_of_outcome hother] at hname
  exact name_injective hname ▸ hother

/-- **The report of a required validator is found under its name**, if it has one. -/
theorem report?_runAll (h : kind ∈ required c) :
    (runAll source c).report? kind.name = some r ↔ outcome source c kind = .ok r := by
  refine ⟨outcome_of_report?, fun ho => ?_⟩
  have hr : r ∈ (runAll source c).reports := (mem_reports source c r).2 ⟨kind, h, ho⟩
  have hsome : ((runAll source c).report? kind.name).isSome = true :=
    List.find?_isSome.2 ⟨r, hr, beq_iff_eq.2 (validator_of_outcome ho)⟩
  obtain ⟨found, hfound⟩ := Option.isSome_iff_exists.1 hsome
  cases ho.symm.trans (outcome_of_report? hfound)
  exact hfound

/-- A required validator has a valid report exactly if it can be created and passes. -/
theorem valid_report_iff (h : kind ∈ required c) :
    (∃ r, (runAll source c).report? kind.name = some r ∧ r.isValid = true) ↔
      ∃ v, Validator.create kind source c = .ok v ∧ v.Passes := by
  simp only [report?_runAll h]
  constructor
  · rintro ⟨r, ho, hi⟩
    obtain ⟨v, hv, hr⟩ := outcome_ok ho
    exact ⟨v, hv, r, hr, hi⟩
  · rintro ⟨v, hv, r, hr, hi⟩
    refine ⟨r, ?_, hi⟩
    rw [outcome, hv]
    exact hr

/-- **The verdict is a matter of counts.** -/
theorem verdict_runAll (source : Source) (c : ExperimentConfig) :
    (runAll source c).verdict =
      if (runAll source c).failures ≠ [] ∨ 0 < (runAll source c).errorCount then .failed
      else if 0 < (runAll source c).warningCount then .passedWithWarnings
      else .passed := by
  -- a report among those of an experiment is complete, so only errors can make it invalid
  have hinvalid : (runAll source c).reports.any (! ·.isValid) = true ↔
      0 < (runAll source c).errorCount := by
    unfold ExperimentReport.errorCount
    rw [List.any_eq_true, List.length_pos_iff_exists_mem]
    constructor
    · rintro ⟨r, hr, hv⟩
      obtain ⟨kind, -, ho⟩ := (mem_reports source c r).1 hr
      rw [isValid_of_outcome ho, Bool.not_eq_true', List.isEmpty_eq_false_iff_exists_mem] at hv
      obtain ⟨message, hm⟩ := hv
      exact ⟨message, List.mem_flatMap.2 ⟨r, hr, hm⟩⟩
    · rintro ⟨message, hm⟩
      obtain ⟨r, hr, hm⟩ := List.mem_flatMap.1 hm
      obtain ⟨kind, -, ho⟩ := (mem_reports source c r).1 hr
      refine ⟨r, hr, ?_⟩
      rw [isValid_of_outcome ho, Bool.not_eq_true', List.isEmpty_eq_false_iff_exists_mem]
      exact ⟨message, hm⟩
  have hfailed : (! (runAll source c).failures.isEmpty ||
      (runAll source c).reports.any (! ·.isValid)) = true ↔
      (runAll source c).failures ≠ [] ∨ 0 < (runAll source c).errorCount := by
    rw [Bool.or_eq_true, hinvalid, Bool.not_eq_true', List.isEmpty_eq_false_iff]
  unfold ExperimentReport.verdict
  simp only [hfailed]

/-- **Each required validator counts once.** The reports and the failures of an experiment are what
its required validators come to, each created and run alone, in the order in which they are
required. Each of them bears the name of its validator, no name occurs twice, and none is missing.
The verdict follows from the counts. -/
theorem each_required_once (source : Source) (c : ExperimentConfig) :
    let x := runAll source c
    let alone := fun kind => (Validator.create kind source c).bind Validator.report
    x.reports = (required c).filterMap (fun kind => (alone kind).toOption) ∧
      x.failures =
        (required c).filterMap (fun kind => (failure? (alone kind)).map (kind.name, ·)) ∧
      x.reports.map (·.validator) =
        ((required c).filter fun kind => (alone kind).isOk).map Kind.name ∧
      ((required c).map Kind.name).Nodup ∧
      (x.reports.map (·.validator) ++ x.failures.map (·.1)).Perm ((required c).map Kind.name) ∧
      x.verdict =
        if x.failures ≠ [] ∨ 0 < x.errorCount then .failed
        else if 0 < x.warningCount then .passedWithWarnings
        else .passed := by
  intro x alone
  refine ⟨reports_runAll source c, failures_runAll_eq source c,
    names_reports source c, nodup_required c, ?_, verdict_runAll source c⟩
  rw [names_reports, names_failures, ← List.map_append]
  exact (List.filter_append_perm _ _).map Kind.name

/-! ### Wordings -/

/-- Sources that agree on all that can be read. -/
structure Source.Agree (x y : Source) : Prop where
  nodes : x.nodes.toOption = y.nodes.toOption
  streams : x.streams.toOption = y.streams.toOption
  maps : x.maps.toOption = y.maps.toOption

theorem toOption_bind {α β : Type} (x : Except Failure α) (f : α → Except Failure β) :
    (x >>= f).toOption = x.toOption.bind fun a => (f a).toOption := by
  cases x <;> rfl

theorem isOk_eq {α : Type} (x : Except Failure α) : x.isOk = x.toOption.isSome := by
  cases x <;> rfl

/-- Which nodes can be read does not depend on how errors are worded. -/
theorem toOption_read (w w' : Wording) (contents : NodeContents) :
    (contents.read w).toOption = (contents.read w').toOption := by
  unfold NodeContents.read Node.ofBytes
  cases contents.metrics with
  | none => rfl
  | some bytes =>
    dsimp only
    cases Metrics.Table.read? bytes <;> rfl

theorem agree_ofContents (w w' : Wording) (contents : List NodeContents)
    (streams : List (Option EventStream.StreamData)) (snapshots : List (Option (List UInt8))) :
    (Source.ofContents w contents streams snapshots).Agree
      (Source.ofContents w' contents streams snapshots) := by
  refine ⟨?_, rfl, rfl⟩
  change (contents.mapM (NodeContents.read w)).toOption =
    (contents.mapM (NodeContents.read w')).toOption
  induction contents with
  | nil => rfl
  | cons first contents ih =>
    simp only [List.mapM_cons, toOption_bind, toOption_read w w' first, ih]

theorem toOption_appRates (w w' : Wording) (c : ExperimentConfig) :
    (c.appRates w).toOption = (c.appRates w').toOption := by
  unfold ExperimentConfig.appRates
  split
  · cases c.appConfig with
    | none => rfl
    | some text =>
      dsimp only
      cases AppConfig.read? text <;> rfl
  · rfl

/-- **Sources that agree lead to the same validators.** -/
theorem Source.Agree.toOption_create {x y : Source} (h : x.Agree y) (kind : Kind)
    (c : ExperimentConfig) :
    (Validator.create kind x c).toOption = (Validator.create kind y c).toOption := by
  cases kind with
  | reconnect =>
    unfold Validator.create
    cases c.reconnect with
    | none => rfl
    | some scenario => simp only [toOption_bind, h.nodes]
  | appThrottle =>
    simp only [Validator.create, Validator.ofAppRates, toOption_bind, h.nodes,
      toOption_appRates x.wording y.wording c]
  | _ => simp only [Validator.create, toOption_bind, h.nodes, h.streams, h.maps]

/-- Experiments over sources that agree come to the same, but for the wordings of failures. -/
theorem runAll_agree {x y : Source} (h : x.Agree y) (c : ExperimentConfig) :
    (runAll x c).reports = (runAll y c).reports ∧
      (runAll x c).failures.map (·.1) = (runAll y c).failures.map (·.1) ∧
      (runAll x c).verdict = (runAll y c).verdict := by
  have houtcome : ∀ kind, (outcome x c kind).toOption = (outcome y c kind).toOption := by
    intro kind
    change (Validator.create kind x c >>= Validator.report).toOption =
      (Validator.create kind y c >>= Validator.report).toOption
    rw [toOption_bind, toOption_bind, h.toOption_create kind c]
  have hreports : (runAll x c).reports = (runAll y c).reports := by
    simp only [reports_runAll, houtcome]
  have hfailures : (runAll x c).failures.map (·.1) = (runAll y c).failures.map (·.1) := by
    simp only [names_failures, isOk_eq, houtcome]
  have hempty : (runAll x c).failures.isEmpty = (runAll y c).failures.isEmpty := by
    rw [← List.isEmpty_map (f := (·.1)), hfailures, List.isEmpty_map]
  refine ⟨hreports, hfailures, ?_⟩
  -- the verdict counts failures and messages, and reads no failure
  unfold ExperimentReport.verdict ExperimentReport.warningCount
  rw [hempty, hreports]

/-- **What others say of their errors decides nothing.** With other wordings an experiment has the same
reports, the same validators fail to run, and the verdict is the same. -/
theorem runAll_reworded (w w' : Wording) (contents : List NodeContents)
    (streams : List (Option EventStream.StreamData)) (snapshots : List (Option (List UInt8)))
    (c : ExperimentConfig) :
    let x := runAll (.ofContents w contents streams snapshots) c
    let y := runAll (.ofContents w' contents streams snapshots) c
    x.reports = y.reports ∧ x.failures.map (·.1) = y.failures.map (·.1) ∧ x.verdict = y.verdict :=
  runAll_agree (agree_ofContents w w' contents streams snapshots) c

end RunAudit
