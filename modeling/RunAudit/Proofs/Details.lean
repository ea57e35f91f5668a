import RunAudit.Proofs.Outcomes

/-!
# What checks log

A check logs what it meets on its way: inputs that are missing, attempts to reconnect, measured rates.
All of these are details. Events that matter more are left to those who run the check.

* `Quiet`: findings of which every event is a detail, at the debug level.
* `Audit.Quiet`: a check with such findings, and how it is put together from others.
* `Validator.quiet_audit`: the check of every validator is one.
* `level_of_mem_checkEvents`: what is logged between the start and the end of a validator.
-/

namespace RunAudit

open Check Config Log

/-! ### Findings -/

/-- Findings of which every event is at the debug level. -/
structure Quiet (fs : List Finding) : Prop where
  of_mem : ∀ e, .event e ∈ fs → e.level = .debug

variable {fs gs : List Finding} {α β : Type}

theorem quiet_iff : Quiet fs ↔ ∀ e, .event e ∈ fs → e.level = .debug :=
  ⟨Quiet.of_mem, Quiet.mk⟩

@[simp] theorem quiet_nil : Quiet [] := by simp [quiet_iff]

@[simp] theorem quiet_info (m : String) : Quiet (.info m :: fs) ↔ Quiet fs := by
  simp [quiet_iff]

@[simp] theorem quiet_warning (m : String) : Quiet (.warning m :: fs) ↔ Quiet fs := by
  simp [quiet_iff]

@[simp] theorem quiet_error (m : String) : Quiet (.error m :: fs) ↔ Quiet fs := by
  simp [quiet_iff]

@[simp] theorem quiet_event (e : Event) :
    Quiet (.event e :: fs) ↔ e.level = .debug ∧ Quiet fs := by
  simp [quiet_iff]

@[simp] theorem quiet_append : Quiet (fs ++ gs) ↔ Quiet fs ∧ Quiet gs := by
  simp only [quiet_iff, List.mem_append, or_imp, forall_and]

theorem quiet_flatten {parts : List (List Finding)} (h : ∀ fs ∈ parts, Quiet fs) :
    Quiet parts.flatten := by
  refine ⟨fun e he => ?_⟩
  obtain ⟨fs, hfs, he⟩ := List.mem_flatten.1 he
  exact (h fs hfs).of_mem e he

theorem quiet_flatMap {f : α → List Finding} (h : ∀ a, Quiet (f a)) (as : List α) :
    Quiet (as.flatMap f) := by
  rw [List.flatMap_def]
  refine quiet_flatten fun fs hfs => ?_
  obtain ⟨a, -, rfl⟩ := List.mem_map.1 hfs
  exact h a

theorem quiet_mapIdx {f : Nat → α → List Finding} (h : ∀ i a, Quiet (f i a)) (as : List α) :
    Quiet (as.mapIdx f).flatten := by
  refine quiet_flatten fun fs hfs => ?_
  obtain ⟨i, -, rfl⟩ := List.mem_mapIdx.1 hfs
  exact h i _

/-- Findings picked one by one, none of which is an event. -/
theorem quiet_filterMap {f : α → Option Finding} (h : ∀ a e, f a ≠ some (.event e))
    (as : List α) : Quiet (as.filterMap f) := by
  refine ⟨fun e he => ?_⟩
  obtain ⟨a, -, ha⟩ := List.mem_filterMap.1 he
  exact absurd ha (h a e)

theorem quiet_exceptionFindings (node : Nat) (source : String) (judge : Entry → Judgement)
    (es : List Entry) : Quiet (exceptionFindings node source judge es) := by
  refine quiet_filterMap (fun e event he => ?_) es
  cases hj : judge e <;> rw [hj] at he <;> cases he

theorem quiet_logMissing (validator : String) (place : Nat) :
    Quiet (logMissing validator place) := by
  simp [logMissing, Event.level]

/-! ### Parts of checks -/

namespace Audit

variable {σ : Type} {first : Audit σ α}

/-- A check of which every event is at the debug level. -/
def Quiet (a : Audit σ α) : Prop := RunAudit.Quiet a.findings

theorem Quiet.andThen {next : σ → α → Audit σ β} (h : first.Quiet)
    (hn : ∀ inputs a, (next inputs a).Quiet) : (first.andThen next).Quiet := by
  unfold Audit.andThen
  cases first.result with
  | error failure => exact h
  | ok a => exact quiet_append.2 ⟨h, hn _ a⟩

theorem Quiet.conclude {more : σ → α → List Finding} (h : first.Quiet)
    (hm : ∀ inputs a, RunAudit.Quiet (more inputs a)) : (first.conclude more).Quiet :=
  h.andThen hm

theorem quiet_each {check : Nat → σ → Audit σ α} (h : ∀ place item, (check place item).Quiet)
    (items : List σ) : (each check items).Quiet := by
  unfold each
  generalize 0 = place
  induction items generalizing place with
  | nil => exact quiet_nil
  | cons item items ih =>
    rw [eachFrom]
    cases (check place item).result with
    | error failure => exact h place item
    | ok a => exact quiet_append.2 ⟨h place item, ih (place + 1)⟩

end Audit

theorem quiet_sweep {wanted : Marker → Bool} {report : List Entry → List Finding}
    (h : ∀ es, Quiet (report es)) (c : Cursor) : (sweep wanted report c).Quiet := h _

theorem quiet_finish (c : Cursor) : (finish c).Quiet := quiet_nil

theorem quiet_seek (wanted : Marker → Bool) (c : Cursor) : (seek wanted c).Quiet := by
  unfold seek
  split <;> exact quiet_nil

/-- A check of the log of each node in turn. -/
theorem quiet_auditLogs {check : Nat → Cursor → Audit Cursor α}
    (h : ∀ place c, (check place c).Quiet) (validator : String) (missing : α)
    (nodes : List Node) : (Audit.each (Node.auditLog validator missing check) nodes).Quiet := by
  refine Audit.quiet_each (fun place n => ?_) nodes
  unfold Node.auditLog
  cases n.log with
  | none => exact quiet_logMissing validator place
  | some c => exact h place c

/-! ### Checks -/

namespace Check

theorem Statistics.quiet_findings (validator : String) (nodes : List Node) :
    Quiet (Statistics.findings validator nodes) := by
  refine quiet_append.2 ⟨quiet_mapIdx (fun i n => ?_) nodes, quiet_flatMap (fun t => ?_) _⟩
  · unfold missingFindings
    split_ifs <;> simp [Event.level]
  · unfold breachFindings
    split <;> simp

theorem Health.quiet_auditStandard (validator : String) (expectFinish : Bool)
    (policy : ExceptionPolicy) (nodes : List Node) :
    (Health.auditStandard validator expectFinish policy nodes).Quiet := by
  refine (quiet_auditLogs (fun place c => ?_) validator () nodes).conclude
    fun nodes _ => Statistics.quiet_findings validator nodes
  refine (quiet_sweep (fun es => quiet_flatMap (fun e => ?_) es) c).conclude fun c progress => ?_
  · unfold progressFindings
    split_ifs <;> simp
  · refine quiet_append.2 ⟨?_, quiet_exceptionFindings ..⟩
    unfold finishFindings
    split_ifs <;> simp

theorem Health.quiet_auditStdout (nodes : List Node) : (Health.auditStdout nodes).Quiet := by
  refine (Audit.quiet_each (fun place n => ?_) nodes).conclude fun _ _ => quiet_nil
  unfold auditNodeStdout
  cases n.stdout with
  | none => exact quiet_nil
  | some c =>
    exact Audit.Quiet.conclude (quiet_finish c) fun c _ => quiet_exceptionFindings ..

theorem Health.quiet_auditServices (validator : String) (nodes : List Node) :
    (Health.auditServices validator nodes).Quiet :=
  (quiet_auditLogs (fun _ c => (quiet_finish c).conclude fun _ _ => quiet_exceptionFindings ..)
    validator () nodes).conclude fun _ _ => quiet_nil

/-- Of an attempt to reconnect its end and its failure are logged. -/
theorem Reconnection.quiet_step (scenario : ReconnectScenario) (node : Nat)
    (p : Reconnection.Progress) (e : Entry) : Quiet (p.step scenario node e).2 := by
  unfold Reconnection.Progress.step
  obtain ⟨phase, action⟩ := Reconnect.transition p.phase e.marker
  cases action with
  | finishAttempt => simp [finishFindings, Event.level]
  | receiveStateError =>
    simp only
    split_ifs <;> simp [Event.level]
  | _ => simp [Event.level]

theorem Reconnection.quiet_follow (scenario : ReconnectScenario) (node : Nat)
    (p : Reconnection.Progress) (es : List Entry) : Quiet (p.follow scenario node es).2 := by
  induction es generalizing p with
  | nil => exact quiet_nil
  | cons e es ih => exact quiet_append.2 ⟨quiet_step scenario node p e, ih _⟩

theorem Reconnection.quiet_auditLog (scenario : ReconnectScenario) (last node : Nat) (c : Cursor) :
    (Reconnection.auditLog scenario last node c).Quiet := by
  unfold Reconnection.auditLog
  split_ifs
  · refine (quiet_sweep (fun es => quiet_follow ..) c).andThen fun c es => ?_
    refine quiet_append.2 ⟨?_, quiet_exceptionFindings ..⟩
    unfold unfinishedFindings
    split_ifs <;> simp
  · exact (quiet_finish c).andThen fun c _ => quiet_exceptionFindings ..

theorem Reconnection.quiet_roundFindings (start : UInt64) (peers : List Node) (last : Node) :
    Quiet (Reconnection.roundFindings start peers last) := by
  unfold roundFindings
  simp only
  split
  · simp
  · refine quiet_append.2 ⟨?_, ?_⟩
    · unfold startFindings
      split_ifs <;> simp
    · unfold lagFindings
      split
      · simp
      · split_ifs <;> simp

theorem Reconnection.quiet_audit (validator : String) (scenario : ReconnectScenario)
    (start : UInt64) (nodes : List Node) :
    (Reconnection.audit validator scenario start nodes).Quiet := by
  unfold Reconnection.audit
  split
  · exact (quiet_error _).2 quiet_nil
  · refine (quiet_auditLogs (quiet_auditLog scenario _) validator none _).conclude
      fun nodes finished => quiet_append.2 ⟨?_, ?_⟩
    · unfold countFindings
      split_ifs <;> simp
    · split
      · exact quiet_roundFindings ..
      · exact quiet_nil

theorem Restart.quiet_audit (validator : String) (nodes : List Node) :
    (Restart.audit validator nodes).Quiet := by
  refine (quiet_auditLogs (fun place c => ?_) validator () nodes).conclude fun _ _ => quiet_nil
  refine (quiet_sweep (fun es => quiet_flatMap (fun e => ?_) es) c).conclude fun c found => ?_
  · unfold roundFindings
    split_ifs <;> simp
  · refine quiet_append.2 ⟨?_, quiet_exceptionFindings ..⟩
    unfold compareFindings
    split_ifs <;> simp

theorem Recovery.quiet_auditLog (node : Nat) (c : Cursor) : (Recovery.auditLog node c).Quiet := by
  have hsaved : ∀ saved, Quiet (savedFindings node saved) := by
    intro saved
    unfold savedFindings
    split
    · simp
    · split_ifs <;> simp
  have hfinish : ∀ finished, Quiet (finishFindings node finished) := by
    intro finished
    unfold finishFindings
    split_ifs <;> simp
  refine (quiet_seek _ c).andThen fun c saved => ?_
  refine Audit.Quiet.andThen (hsaved saved) fun c _ => ?_
  refine (quiet_seek _ c).andThen fun c finished => ?_
  refine Audit.Quiet.andThen (hfinish finished) fun c _ => ?_
  exact (quiet_finish c).andThen fun c _ => quiet_exceptionFindings ..

theorem Recovery.quiet_audit (validator : String) (nodes : List Node) :
    (Recovery.audit validator nodes).Quiet := by
  refine (quiet_auditLogs quiet_auditLog validator none nodes).conclude fun _ rounds => ?_
  unfold agreementFindings
  split <;> simp

theorem Streams.quiet_hashFindings (node : Nat) (nodes : List (Option EventStream.StreamData)) :
    Quiet (Streams.hashFindings node nodes) := by
  induction nodes generalizing node with
  | nil => exact quiet_nil
  | cons first later ih =>
    cases first with
    | none => exact ih (node + 1)
    | some previous =>
      match later with
      | [] => exact quiet_nil
      | none :: _ => exact ih (node + 1)
      | some current :: _ =>
        refine quiet_append.2 ⟨?_, ih (node + 1)⟩
        unfold pairFindings
        split_ifs
        · exact quiet_nil
        · split <;> simp

theorem Streams.quiet_sigFindings (reference : EventStream.StreamData) (node : Nat)
    (d : Option EventStream.StreamData) : Quiet (Streams.sigFindings reference node d) := by
  unfold sigFindings
  split
  · exact quiet_nil
  · simp only
    split_ifs
    · simp
    · split <;> simp

theorem Streams.quiet_audit (recovered : Bool) (nodes : List (Option EventStream.StreamData)) :
    (Streams.audit recovered nodes).Quiet := by
  have hevents : ∀ i d, Quiet (eventFindings i d) := by
    intro i d
    unfold eventFindings
    repeat' split
    all_goals simp
  have hreference : Quiet (referenceFindings nodes) := by
    unfold referenceFindings
    split
    · exact quiet_mapIdx (fun i d => quiet_sigFindings _ _ d) _
    · exact quiet_nil
  have hmalformed : ∀ i d, Quiet (malformedFindings i d) := by
    intro i d
    unfold malformedFindings
    repeat' split
    all_goals simp
  have hrecovered : ∀ i d, Quiet (recoveredFindings recovered i d) := by
    intro i d
    unfold recoveredFindings
    repeat' split
    all_goals simp
  unfold Streams.audit
  split_ifs
  · exact quiet_nil
  · simp only [Audit.Quiet, Audit.findings_done, Streams.findings, quiet_append]
    exact ⟨⟨⟨⟨quiet_mapIdx hevents nodes, quiet_hashFindings 1 nodes⟩, hreference⟩,
      quiet_mapIdx hmalformed nodes⟩, quiet_mapIdx hrecovered nodes⟩

/-- Of a phase its two rates are logged. -/
theorem Throttle.quiet_findings (validator : String) (expected : List Float) (nodes : List Node) :
    Quiet (Throttle.findings validator expected nodes) := by
  have hphase : ∀ i (p : Float × Float), Quiet (phaseFindings i p.1 p.2) := by
    intro i p
    unfold phaseFindings
    simp only
    split_ifs <;> simp [Event.level]
  unfold Throttle.findings comparisonFindings
  simp only
  split_ifs
  · simp
  all_goals
    refine quiet_append.2 ⟨quiet_mapIdx (fun i n => ?_) nodes, ?_⟩
    · unfold missingFindings
      split_ifs <;> simp [Event.level]
  · simp
  · exact quiet_append.2 ⟨quiet_mapIdx hphase _, by simp⟩
  · exact quiet_append.2 ⟨quiet_mapIdx hphase _, by simp⟩

theorem Entities.quiet_sharedFindings (baseline : Snapshot.ExpectedMap) (node : Nat)
    (m : Snapshot.ExpectedMap) : Quiet (Entities.sharedFindings baseline node m) := by
  refine quiet_flatMap (fun ⟨key, expected⟩ => ?_) _
  simp only
  cases m.get? key with
  | none => exact quiet_nil
  | some actual =>
    refine quiet_append.2 ⟨?_, ?_⟩
    · refine quiet_filterMap (fun ⟨name, same, describe⟩ e he => ?_) _
      simp at he
    · unfold erroredFindings
      split_ifs <;> simp

theorem Entities.quiet_findings (maps : List (Option Snapshot.ExpectedMap)) :
    Quiet (Entities.findings maps) := by
  have hmissing : ∀ i m j m', Quiet (missingFindings i m j m') := by
    intro i m j m'
    unfold missingFindings
    simp only
    split_ifs <;> simp
  refine quiet_append.2 ⟨quiet_mapIdx (fun i m => ?_) maps, ?_⟩
  · unfold ownFindings
    split
    · simp
    · refine quiet_filterMap (fun ⟨key, v⟩ e he => ?_) _
      simp at he
  · split
    · refine quiet_mapIdx (fun i m => ?_) _
      unfold againstBaseline
      split
      · exact quiet_nil
      · exact quiet_append.2 ⟨quiet_append.2 ⟨hmissing .., hmissing ..⟩, quiet_sharedFindings ..⟩
    · exact quiet_nil

theorem Compensation.quiet_audit (validator : String) (nodes : List Node) :
    (Compensation.audit validator nodes).Quiet := by
  refine (quiet_auditLogs (fun place c => ?_) validator () nodes).conclude fun _ _ => quiet_nil
  refine (quiet_sweep (fun es => quiet_flatMap (fun e => ?_) es) c).conclude fun _ _ => quiet_nil
  unfold findings
  split_ifs <;> simp

theorem Migration.quiet_auditStages (node : Nat) (c : Cursor) (wanted : List Marker) :
    (Migration.auditStages node c wanted).Quiet := by
  induction wanted generalizing c with
  | nil => exact (quiet_info _).2 quiet_nil
  | cons stage later ih =>
    refine (quiet_seek _ c).andThen fun c reached => ?_
    split_ifs
    · exact ih c
    · exact (quiet_error _).2 quiet_nil

theorem Migration.quiet_audit (validator : String) (nodes : List Node) :
    (Migration.audit validator nodes).Quiet :=
  (quiet_auditLogs (fun node c => quiet_auditStages node c stages) validator () nodes).conclude
    fun _ _ => quiet_nil

theorem Suites.quiet_suiteFindings (place : Nat) (suite : String) (s : SuiteCounts) :
    Quiet (suiteFindings place suite s) := by
  unfold suiteFindings
  simp only [quiet_append, quiet_info, quiet_nil, true_and]
  refine ⟨⟨?_, ?_⟩, ?_⟩
  all_goals split_ifs <;> simp

theorem Suites.quiet_audit (nodes : List Node) : (Suites.audit nodes).Quiet := by
  refine (Audit.quiet_each (fun place n => ?_) nodes).conclude fun _ clients => ?_
  · unfold auditClient
    cases n.client with
    | none => exact quiet_nil
    | some c =>
      refine Audit.Quiet.andThen (quiet_sweep (fun _ => quiet_nil) c) fun c es => ?_
      exact quiet_append.2 ⟨quiet_flatMap (fun ⟨suite, s⟩ => quiet_suiteFindings place suite s) _,
        quiet_exceptionFindings ..⟩
  · split_ifs <;> simp

end Check

/-- **Whatever a check logs is at the debug level.** -/
theorem Validator.quiet_audit (v : Validator) : v.audit.Quiet := by
  cases v with
  | standard nodes expectFinish policy => exact Health.quiet_auditStandard ..
  | stdout nodes => exact Health.quiet_auditStdout nodes
  | reconnect nodes scenario start => exact Reconnection.quiet_audit ..
  | restart nodes => exact Restart.quiet_audit ..
  | recoverState nodes => exact Recovery.quiet_audit ..
  | streamingServer streams recovered => exact Streams.quiet_audit ..
  | throttle nodes expected => exact Throttle.quiet_findings ..
  | appThrottle nodes expected => exact Throttle.quiet_findings ..
  | lifecycle maps => exact Entities.quiet_findings maps
  | gossipCompensation nodes => exact Compensation.quiet_audit ..
  | migration nodes => exact Migration.quiet_audit ..
  | hapiClient nodes => exact Suites.quiet_audit nodes
  | services nodes => exact Health.quiet_auditServices ..

theorem Validator.level_of_mem_events {v : Validator} {e : Event} (h : e ∈ v.events) :
    e.level = .debug := by
  obtain ⟨f, hf, he⟩ := List.mem_filterMap.1 h
  cases f with
  | event event =>
    cases he
    exact v.quiet_audit.of_mem _ hf
  | _ => cases he

/-- The events of a kind of validator between its start and its end are details. -/
theorem level_of_mem_checkEvents {source : Source} {c : ExperimentConfig} {kind : Kind} {e : Event}
    (h : e ∈ checkEvents source c kind) : e.level = .debug := by
  unfold checkEvents at h
  split at h
  · exact Validator.level_of_mem_events h
  · cases h

end RunAudit
