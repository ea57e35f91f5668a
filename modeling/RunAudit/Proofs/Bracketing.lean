import RunAudit.Proofs.Details
import RunAudit.Proofs.Isolation

/-!
# What is logged of an experiment

Starts and ends of validators are logged on request, and nothing else depends on the request. With it
the events of each validator stand between its start and its end, or its failure.

* `runAll_logging`: the report does not depend on the request.
* `watch`: an experiment as one loop, which logs as it goes along.
* `watch_eq`: its report and its events are those of the experiment.
* `filter_eventsOf`: what is logged without a request as well.
* `logging_is_bracketed`: an experiment with the request against the same one without it.
-/

namespace RunAudit

open Config

/-! ### Requests -/

/-- The same experiment with or without the request to log starts and ends. -/
def Config.ExperimentConfig.logging (c : ExperimentConfig) (on : Bool) : ExperimentConfig :=
  { c with logEvents := on }

@[simp] theorem logEvents_logging (c : ExperimentConfig) (on : Bool) :
    (c.logging on).logEvents = on := rfl

variable (source : Source) (c : ExperimentConfig) (kind : Kind) (on : Bool)

@[simp] theorem create_logging :
    Validator.create kind source (c.logging on) = Validator.create kind source c := by
  cases kind <;> rfl

@[simp] theorem required_logging : required (c.logging on) = required c := by
  refine List.filter_congr fun kind _ => ?_
  cases kind <;> rfl

@[simp] theorem outcome_logging : outcome source (c.logging on) kind = outcome source c kind := by
  simp only [outcome, create_logging]

@[simp] theorem checkEvents_logging :
    checkEvents source (c.logging on) kind = checkEvents source c kind := by
  simp only [checkEvents, create_logging]

/-- **The report does not depend on the request.** -/
@[simp] theorem runAll_logging : runAll source (c.logging on) = runAll source c := by
  simp only [runAll, required_logging, outcome_logging]

/-! ### The loop -/

/-- An experiment under way: its report so far and what has been logged. -/
structure Watched where
  report : ExperimentReport := {}
  events : List Event := []

/-- One more event. -/
def Watched.log (w : Watched) (e : Event) : Watched := { w with events := w.events ++ [e] }

/-- One more event if there is a request for it. -/
def Watched.logIf (w : Watched) (on : Bool) (e : Event) : Watched := if on then w.log e else w

/-- One more kind of validator, which logs its start, runs if it can be created, and logs what it
comes to. -/
def Watched.next (w : Watched) (kind : Kind) : Watched :=
  let started := w.logIf c.logEvents (startEvent source kind)
  let (details, outcome) : List Event × Except Failure Report :=
    match Validator.create kind source c with
    | .error failure => ([], .error failure)
    | .ok v => (v.events, v.report)
  let ran := { started with events := started.events ++ details }
  match outcome with
  | .ok r =>
    let ended := ran.logIf c.logEvents (endEvent r)
    { ended with report := ended.report.add kind.name (.ok r) }
  | .error failure =>
    let ended := ran.log (.failedToRun kind.name failure)
    { ended with report := ended.report.add kind.name (.error failure) }

/-- A whole experiment, which logs its verdict at the end. -/
def watch : Watched :=
  let w := (required c).foldl (Watched.next source c) {}
  w.logIf c.logEvents (verdictEvent w.report)

variable {source c kind}

/-- One kind of validator adds its outcome to the report and its events to the log. -/
theorem Watched.next_eq (w : Watched) :
    w.next source c kind =
      ⟨w.report.add kind.name (outcome source c kind), w.events ++ kindEvents source c kind⟩ := by
  unfold Watched.next kindEvents checkEvents outcome
  cases Validator.create kind source c with
  | error failure =>
    cases c.logEvents <;> simp [logIf, log, Except.bind]
  | ok v =>
    cases hr : v.report <;> cases c.logEvents <;> simp [logIf, log, Except.bind, hr]

/-- The loop from any point, by induction on the kinds that are still to come. -/
theorem Watched.foldl_next (w : Watched) (kinds : List Kind) :
    kinds.foldl (Watched.next source c) w =
      ⟨kinds.foldl (fun x kind => x.add kind.name (outcome source c kind)) w.report,
        w.events ++ kinds.flatMap (kindEvents source c)⟩ := by
  induction kinds generalizing w with
  | nil => simp
  | cons kind kinds ih => simp [next_eq, ih]

variable (source c)

/-- **The loop comes to the report of the experiment, and logs its events.** -/
theorem watch_eq : watch source c = ⟨runAll source c, eventsOf source c⟩ := by
  unfold watch
  rw [Watched.foldl_next]
  unfold eventsOf runAll
  cases c.logEvents <;> simp [Watched.logIf, Watched.log]

/-! ### Brackets -/

variable (kind)

/-- The last event of a kind of validator: its end with the counts of its report, or its failure. -/
def ending (kind : Kind) : Except Failure Report → Event
  | .ok r =>
    .validationEnd kind.name r.isValid r.errors.length r.warnings.length r.infos.length
  | .error failure => .failedToRun kind.name failure

/-- With the request every kind of validator has a start and an end. -/
theorem kindEvents_on :
    kindEvents source (c.logging true) kind =
      .validationStart kind.name source.nodeCount ::
        checkEvents source c kind ++ [ending kind (outcome source c kind)] := by
  unfold kindEvents
  rw [outcome_logging, checkEvents_logging]
  cases ho : outcome source c kind with
  | error failure => rfl
  | ok r => simp [startEvent, endEvent, ending, validator_of_outcome ho]

/-- What is logged of a kind of validator without the request. -/
def unasked (kind : Kind) : List Event :=
  checkEvents source c kind ++
    match outcome source c kind with
    | .ok _ => []
    | .error failure => [.failedToRun kind.name failure]

theorem kindEvents_off : kindEvents source (c.logging false) kind = unasked source c kind := by
  unfold kindEvents unasked
  rw [outcome_logging, checkEvents_logging]
  cases outcome source c kind <;> rfl

theorem level_of_mem_unasked {e : Event} (h : e ∈ unasked source c kind) : e.level ≠ .info := by
  unfold unasked at h
  rcases List.mem_append.1 h with hd | hf
  · rw [level_of_mem_checkEvents hd]
    decide
  · split at hf
    · cases hf
    · rw [List.mem_singleton.1 hf]
      simp [Event.level]

/-- The request adds nothing but infos to the events of a kind of validator. -/
theorem filter_kindEvents :
    (kindEvents source (c.logging on) kind).filter (·.level ≠ .info) = unasked source c kind := by
  have hunasked : (unasked source c kind).filter (·.level ≠ .info) = unasked source c kind :=
    List.filter_eq_self.2 fun e he => decide_eq_true (level_of_mem_unasked source c kind he)
  cases on with
  | false => rw [kindEvents_off, hunasked]
  | true =>
    rw [← hunasked, kindEvents_on, unasked]
    cases outcome source c kind <;> simp [ending, Event.level]

/-- **Without infos the same is logged in either case.** -/
theorem filter_eventsOf :
    (eventsOf source (c.logging on)).filter (·.level ≠ .info) =
      (required c).flatMap (unasked source c) := by
  unfold eventsOf
  rw [List.filter_append, List.filter_flatMap, required_logging]
  simp only [filter_kindEvents]
  cases on <;> simp [verdictEvent, Event.level]

theorem eventsOf_off :
    eventsOf source (c.logging false) = (required c).flatMap (unasked source c) := by
  have hkinds : kindEvents source (c.logging false) = unasked source c :=
    funext fun kind => kindEvents_off source c kind
  unfold eventsOf
  rw [required_logging, logEvents_logging, hkinds, if_neg Bool.false_ne_true, List.append_nil]

theorem eventsOf_on :
    eventsOf source (c.logging true) =
      (required c).flatMap (fun kind =>
          .validationStart kind.name source.nodeCount ::
            checkEvents source c kind ++ [ending kind (outcome source c kind)])
        ++ [verdictEvent (runAll source c)] := by
  unfold eventsOf
  rw [required_logging, logEvents_logging, runAll_logging, if_pos rfl]
  congr 2
  exact funext fun kind => kindEvents_on source c kind

/-- **Events stand in brackets, and logging them changes nothing.** The loop over the required
validators comes to the same report with the request to log starts and ends as without it, and logs
the same details and failures. Without it there are no infos. With it every required validator in
turn has its start, its details, and its end or its failure, and the verdict on the returned report
comes last. -/
theorem logging_is_bracketed (source : Source) (c : ExperimentConfig) :
    let x := runAll source c
    let events := fun on => eventsOf source (c.logging on)
    (∀ on, runAll source (c.logging on) = x ∧ watch source (c.logging on) = ⟨x, events on⟩) ∧
      (events true).filter (·.level ≠ .info) = (events false).filter (·.level ≠ .info) ∧
      (∀ e ∈ events false, e.level ≠ .info) ∧
      events true =
        (required c).flatMap (fun kind =>
            .validationStart kind.name source.nodeCount ::
              checkEvents source c kind ++ [ending kind (outcome source c kind)])
          ++ [.experimentVerdict x.verdict.render x.failures.length x.errorCount
            x.warningCount] ∧
      ∀ kind, ∀ e ∈ checkEvents source c kind, e.level = .debug := by
  intro x events
  refine ⟨fun on => ⟨runAll_logging source c on, ?_⟩, ?_, fun e he => ?_, eventsOf_on source c,
    fun kind e => level_of_mem_checkEvents⟩
  · rw [watch_eq, runAll_logging]
  · exact (filter_eventsOf source c true).trans (filter_eventsOf source c false).symm
  · rw [show events false = _ from eventsOf_off source c] at he
    obtain ⟨kind, -, he⟩ := List.mem_flatMap.1 he
    exact level_of_mem_unasked source c kind he

end RunAudit
