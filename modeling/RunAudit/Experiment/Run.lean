import RunAudit.Experiment.Validator

/-!
# Validating an experiment

* `outcome`: the report or the failure of one kind of validator over fresh inputs.
* `runAll`: the report on a whole experiment, from all validators it requires.
* `eventsOf`: what is logged meanwhile.
* `reports_runAll`: no validator changes what another comes to.
-/

namespace RunAudit

open Config

/-- The report or the failure of one kind of validator. -/
def outcome (source : Source) (c : ExperimentConfig) (kind : Kind) : Except Failure Report :=
  (Validator.create kind source c).bind Validator.report

/-- The report on an experiment. -/
def runAll (source : Source) (c : ExperimentConfig) : ExperimentReport :=
  (required c).foldl (fun x kind => x.add kind.name (outcome source c kind)) {}

/-- The events of the check itself. -/
def checkEvents (source : Source) (c : ExperimentConfig) (kind : Kind) : List Event :=
  match Validator.create kind source c with
  | .ok v => v.events
  | .error _ => []

/-- The event that a validator starts. -/
def startEvent (source : Source) (kind : Kind) : Event :=
  .validationStart kind.name source.nodeCount

/-- The event that a validator has ended with a report. -/
def endEvent (r : Report) : Event :=
  .validationEnd r.validator r.isValid r.errors.length r.warnings.length r.infos.length

/-- The events of one kind of validator. That it failed to run is always logged; its start and its
end only on request. -/
def kindEvents (source : Source) (c : ExperimentConfig) (kind : Kind) : List Event :=
  (if c.logEvents then [startEvent source kind] else [])
    ++ checkEvents source c kind
    ++ match outcome source c kind with
      | .ok r => if c.logEvents then [endEvent r] else []
      | .error failure => [.failedToRun kind.name failure]

/-- The event of the verdict. -/
def verdictEvent (x : ExperimentReport) : Event :=
  .experimentVerdict x.verdict.render x.failures.length x.errorCount x.warningCount

/-- The events of a whole experiment. -/
def eventsOf (source : Source) (c : ExperimentConfig) : List Event :=
  (required c).flatMap (kindEvents source c)
    ++ if c.logEvents then [verdictEvent (runAll source c)] else []

/-- Each validator adds what it comes to on its own. -/
theorem foldl_add_reports (kinds : List Kind) (f : Kind → Except Failure Report)
    (x : ExperimentReport) :
    (kinds.foldl (fun x kind => x.add kind.name (f kind)) x).reports =
      x.reports ++ kinds.filterMap fun kind => (f kind).toOption := by
  induction kinds generalizing x with
  | nil => simp
  | cons kind kinds ih =>
    rw [List.foldl_cons, ih]
    cases h : f kind <;> simp [ExperimentReport.add, h, Except.toOption]

/-- **The reports of an experiment are those of its required validators**, each as it comes out on its
own, and in their order. -/
theorem reports_runAll (source : Source) (c : ExperimentConfig) :
    (runAll source c).reports =
      (required c).filterMap fun kind => (outcome source c kind).toOption := by
  simpa [runAll] using foldl_add_reports (required c) (outcome source c) {}

end RunAudit
