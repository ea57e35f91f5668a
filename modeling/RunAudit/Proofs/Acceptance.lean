import Mathlib.Data.List.Flatten
import Mathlib.Data.List.Perm.Basic
import RunAudit.Proofs.Escalation
import RunAudit.Proofs.Inheritance
import RunAudit.Proofs.Policies
import RunAudit.Proofs.Restarts

/-!
# What the check of every run accepts

The check of every run reads each log to its end before it judges the exceptions in it, so the end
of the run is the time of the last structured line, whether or not that line is an exception.
Exceptions may have taken their times over from lines before them. What a policy accepts is said
here of the entries and lines of a log, without the check.

* `runEnd_eq`: the end of a run, said of the lines as they are written.
* `Accepts`, `Sound`: the exceptions that a policy accepts, and the nodes that nothing is wrong with.
* `auditStandard_of_fresh`: all that is found on nodes whose logs can be decoded.
* `messages_perm`, `messages_standard`: each message comes from one finding, and each exception has
  one unless a policy leaves it to another check.
* `finish_expected`: what changes if the test application should have finished.
* `standard_verdict`: when a report is valid, and what it says of exceptions and of a test
  application that should have finished.
-/

namespace RunAudit

open Check Log Time

/-- **Each message of a report comes from one finding.** -/
theorem Report.messages_perm {σ : Type} {validator : String} {a : Audit σ Unit} {r : Report}
    (h : Report.ofAudit validator a = .ok r) :
    r.messages.Perm (a.findings.filterMap Finding.message?) := by
  rw [eq_of_ofAudit h]
  simp only [Report.messages, Report.extend, List.nil_append]
  induction a.findings with
  | nil => exact .nil
  | cons f fs ih =>
    cases f with
    | info m => exact ih.cons m
    | warning m => exact (List.perm_middle.append_right _).trans (ih.cons m)
    | error m => exact List.perm_middle.trans (ih.cons m)
    | event e => exact ih

/-- What is said of each item in two parts. -/
theorem perm_flatten_mapIdx {α β : Type} {k f g : Nat → α → List β}
    (h : ∀ i a, (k i a).Perm (f i a ++ g i a)) (as : List α) :
    (as.mapIdx k).flatten.Perm ((as.mapIdx f).flatten ++ (as.mapIdx g).flatten) := by
  simp only [List.mapIdx_eq_zipIdx_map, ← List.flatMap_def]
  exact (List.Perm.flatMap_left _ fun x _ => h x.2 x.1).trans
    (List.flatMap_append_perm _ _ _).symm

/-! ### The end of a run -/

namespace Log

variable {es : List Entry} {b : Block}

theorem nearest_cons (e : Entry) (es : List Entry) :
    nearest (e :: es) = (nearest es).or e.timestamp := by
  rw [← List.singleton_append, nearest_append]
  cases ht : e.timestamp <;> simp [nearest, ht]

/-- Timestamps that are carried on do not change which is the latest. -/
theorem nearest_stampAll (last : Option Instant) (es : List Entry) :
    (nearest (stampAll last es)).or last = (nearest es).or last := by
  induction es generalizing last with
  | nil => rfl
  | cons e es ih =>
    have hlater := ih (e.timestamp.or last)
    have hfirst : (e.stamp last).timestamp = e.timestamp.or last := rfl
    rw [stampAll, nearest_cons, nearest_cons, hfirst, hlater, Option.or_assoc, Option.or_assoc,
      Option.or_self, Option.or_assoc]

/-- **The end of a run** is the time of the last line that has one. -/
theorem runEnd_eq (text : String) :
    runEnd (linesOf .platform (utf8 text)) = nearest (parsedLines .platform text) := by
  have hlatest := nearest_stampAll none
    ((blocks (linesOf .platform (utf8 text))).map Block.entry)
  rw [Option.or_none, Option.or_none] at hlatest
  have hmore : ∀ b ∈ blocks (linesOf .platform (utf8 text)), ∀ line ∈ b.more,
      line.timestamp = none := fun b hb => unstamped_of_mem_blocks hb
  calc runEnd (linesOf .platform (utf8 text))
      = nearest (entriesIn (linesOf .platform (utf8 text))) := List.getLast?_filterMap
    _ = nearest ((blocks (linesOf .platform (utf8 text))).flatMap Block.lines) :=
      hlatest.trans (nearest_map_entry hmore)
    _ = nearest (parsedLines .platform text) := by rw [lines_blocks, entry?_linesOf_utf8]

/-- A log that has an entry with a timestamp has an end. -/
theorem exists_runEnd {lines : List Line} {e : Entry} {raised : Instant} (he : e ∈ entriesIn lines)
    (ht : e.timestamp = some raised) : ∃ closing, runEnd lines = some closing := by
  have hmem : raised ∈ (entriesIn lines).filterMap (·.timestamp) :=
    List.mem_filterMap.2 ⟨e, he, ht⟩
  exact ⟨_, List.getLast?_eq_some_getLast (List.ne_nil_of_mem hmem)⟩

end Log

namespace Check.Health

variable {validator : String} {expectFinish : Bool} {policy : ExceptionPolicy} {closing : Option Instant}
  {e : Entry} {nodes : List Node} {n : Node} {last place : Nat}

/-! ### What a policy accepts -/

/-- **The exceptions that a policy accepts** on the last node or on another one, in a log of which
the last structured line was written at some time. -/
def Accepts (policy : ExceptionPolicy) (isLast : Prop) (closing : Option Instant) (e : Entry) :
    Prop :=
  match policy with
  | .plain =>
    e.marker = .testingExceptionsAcceptable ∨
      (e.marker = .socketException ∧ ∀ raised, e.timestamp = some raised →
        ∃ closed, closing = some closed ∧ closed.since raised ≤ Instant.seconds 10)
  | .restart =>
    e.marker = .socketException ∨ e.marker = .testingExceptionsAcceptable ∨
      e.marker = .deleteQueueTooBig
  | .reconnect =>
    e.marker = .socketException ∨ e.marker = .testingExceptionsAcceptable ∨
      (isLast ∧ (e.marker = .receiveStateError ∨ e.marker = .receiveStateIoException ∨
        e.marker = .receiveStateHashMismatch ∨ e.marker = .staleCompensationFailure))

/-- **Nodes that nothing is wrong with** by a policy: each has metrics and a log, and the policy
accepts every exception in it. -/
def Sound (policy : ExceptionPolicy) (nodes : List Node) : Prop :=
  ∀ i n, nodes[i]? = some n → n.metrics.isSome = true ∧
    ∃ text, n.log = some (.ofText .platform text) ∧
      ∀ e ∈ entriesIn (linesOf .platform (utf8 text)), e.isException = true →
        Accepts policy (i + 1 = nodes.length) (nearest (parsedLines .platform text)) e

theorem judgePlain_ne_error
    (h : ∀ raised, e.timestamp = some raised → ∃ closed, closing = some closed) :
    judgePlain closing e ≠ .error ↔
      e.marker = .testingExceptionsAcceptable ∨
        (e.marker = .socketException ∧ ∀ raised, e.timestamp = some raised →
          ∃ closed, closing = some closed ∧ closed.since raised ≤ Instant.seconds 10) := by
  unfold judgePlain
  cases e.marker with
  | socketException =>
    cases ht : e.timestamp with
    | none => simp
    | some raised =>
      obtain ⟨closed, rfl⟩ := h raised ht
      by_cases hgrace : closed.since raised ≤ Instant.seconds 10 <;> simp [shutdownGrace, hgrace]
  | _ => simp

/-- **The rule of a policy** takes for an error what the policy does not accept. -/
theorem judge_ne_error {isLast : Prop} [Decidable isLast]
    (h : ∀ raised, e.timestamp = some raised → ∃ closed, closing = some closed) :
    policy.judge (decide isLast) closing e ≠ .error ↔ Accepts policy isLast closing e := by
  cases policy with
  | plain => exact judgePlain_ne_error h
  | restart => exact judgeRestart_ne_error e
  | reconnect =>
    by_cases hlast : isLast
    · simpa [ExceptionPolicy.judge, Accepts, hlast] using Reconnection.judgeReconnected_ne_error e
    · simpa [ExceptionPolicy.judge, Accepts, hlast] using Reconnection.judgePeer_ne_error e

/-- **When the check of every run comes to a valid report.** -/
theorem passes_iff_sound (h : ∀ n ∈ nodes, n.Fresh) :
    (Validator.standard nodes expectFinish policy).Passes ↔ Sound policy nodes := by
  -- by place, as the policy of a reconnection asks whether a node is the last
  have hjudge : ∀ (i : Nat) (n : Node) (text : String), nodes[i]? = some n →
      (Acceptable (policy.judge (decide (i = nodes.length - 1))
          (runEnd (linesOf .platform (utf8 text)))) (linesOf .platform (utf8 text)) ↔
        ∀ e ∈ entriesIn (linesOf .platform (utf8 text)), e.isException = true →
          Accepts policy (i + 1 = nodes.length) (nearest (parsedLines .platform text)) e) := by
    intro i n text hn
    have hlast : (i = nodes.length - 1) = (i + 1 = nodes.length) := by
      obtain ⟨hi, -⟩ := List.getElem?_eq_some_iff.1 hn
      exact propext (by omega)
    rw [Acceptable, and_iff_right (decodable_linesOf .platform text)]
    refine forall_congr' fun e => forall_congr' fun he => forall_congr' fun _ => ?_
    rw [judge_ne_error fun raised ht => exists_runEnd he ht, hlast, runEnd_eq]
  rw [Validator.passes_iff]
  refine (Audit.passes_within _ _).trans ((passes_standard _ _ fun n hn => (h n hn).unread).trans ?_)
  constructor
  · rintro ⟨hlogs, hmetrics⟩ i n hn
    have hmem := List.mem_of_getElem? hn
    obtain ⟨lines, hlog, hacceptable⟩ := hlogs i n hn
    obtain ⟨text, htext⟩ := h n hmem _ hlog
    cases htext
    exact ⟨hmetrics n hmem, text, hlog, (hjudge i n text hn).1 hacceptable⟩
  · intro hsound
    constructor
    · intro i n hn
      obtain ⟨-, text, hlog, hall⟩ := hsound i n hn
      exact ⟨_, hlog, (hjudge i n text hn).2 hall⟩
    · intro n hmem
      obtain ⟨i, hn⟩ := List.mem_iff_getElem?.1 hmem
      exact (hsound i n hn).1

/-! ### All that is found -/

/-- What is said of a node apart from its exceptions and metrics. -/
def remarks (validator : String) (expectFinish : Bool) (place : Nat) (n : Node) : List Finding :=
  match n.entries? with
  | none => logMissing validator place
  | some es =>
    (es.filter fun e => isProgress e.marker).flatMap (progressFindings place)
      ++ if expectFinish then finishFindings place (es.filter fun e => isProgress e.marker) else []

/-- What is said of the exceptions of a node. -/
def judged (policy : ExceptionPolicy) (last place : Nat) (n : Node) : List Finding :=
  match n.entries? with
  | none => []
  | some es =>
    exceptionFindings place "log"
      (policy.judge (decide (place = last)) (es.filterMap (·.timestamp)).getLast?)
      (es.filter (·.isException))

/-- One node in the check of every run. -/
theorem auditLog_of_fresh (h : n.Fresh) :
    (n.auditLog validator () (auditLog expectFinish policy last) place).result = .ok () ∧
      (n.auditLog validator () (auditLog expectFinish policy last) place).findings =
        remarks validator expectFinish place n ++ judged policy last place n := by
  rcases auditLog_cases h validator () (auditLog expectFinish policy last) place with
    ⟨hnone, ha⟩ | ⟨lines, hd, hentries, ha⟩
  · rw [ha]
    simp [remarks, judged, hnone]
  · rcases sweep_start isProgress (List.flatMap (progressFindings place)) lines with
      ⟨-, c, hs, hat⟩ | ⟨hn, -⟩
    · have hend := hat.lastTimestamp
      have hexceptions := hat.exceptions
      rw [List.take_length] at hend hexceptions
      rw [ha, auditLog, hs, Audit.conclude_of_ok (Audit.result_done _ _ _)]
      refine ⟨rfl, ?_⟩
      simp only [Audit.within, Audit.findings_done, Audit.inputs_done, remarks, judged, hentries,
        hend, hexceptions, List.append_assoc]
    · exact absurd hd hn

/-- The thresholds look at nothing but metrics. -/
theorem statistics_congr {ns ms : List Node} (h : ns.map (·.metrics) = ms.map (·.metrics)) :
    Statistics.findings validator ns = Statistics.findings validator ms := by
  have hmapIdx : ∀ {β : Type} (f : Nat → Option Metrics.Table → β),
      ns.mapIdx (fun i n => f i n.metrics) = ms.mapIdx (fun i n => f i n.metrics) := by
    intro β f
    have hmap : ∀ ns : List Node,
        ns.mapIdx (fun i n => f i n.metrics) = (ns.map (·.metrics)).mapIdx f := by
      intro ns
      refine List.ext_getElem? fun i => ?_
      simp [List.getElem?_mapIdx, Function.comp_def]
    rw [hmap, hmap, h]
  have hmissing : ns.mapIdx (Statistics.missingFindings validator) =
      ms.mapIdx (Statistics.missingFindings validator) :=
    hmapIdx fun i m => Statistics.missingFindings validator i { metrics := m }
  have hoffenders : ∀ t, Statistics.offenders t ns = Statistics.offenders t ms := fun t =>
    congrArg (List.filterMap id) (hmapIdx fun i m => (m.bind t.breach?).map (i, ·))
  simp only [Statistics.findings, Statistics.breachFindings, hmissing, hoffenders]

/-- **All that is found** on nodes whose logs can be decoded. -/
theorem auditStandard_of_fresh (h : ∀ n ∈ nodes, n.Fresh) :
    (auditStandard validator expectFinish policy nodes).result = .ok () ∧
      (auditStandard validator expectFinish policy nodes).findings =
        (nodes.mapIdx fun i n => remarks validator expectFinish i n ++
          judged policy (nodes.length - 1) i n).flatten ++ Statistics.findings validator nodes := by
  have heach : ∀ place, ∀ n ∈ nodes, (n.auditLog validator ()
      (auditLog expectFinish policy (nodes.length - 1)) place).result = .ok () :=
    fun place n hn => (auditLog_of_fresh (h n hn)).1
  have hresult := Audit.result_each (f := fun _ => ()) heach
  obtain ⟨hfindings, -⟩ := Audit.of_eachFrom hresult
  have hnode : (nodes.mapIdx fun i n => (n.auditLog validator ()
      (auditLog expectFinish policy (nodes.length - 1)) (0 + i)).findings) =
      nodes.mapIdx fun i n => remarks validator expectFinish i n ++
        judged policy (nodes.length - 1) i n := by
    refine List.mapIdx_eq_mapIdx_iff.2 fun i hi => ?_
    rw [Nat.zero_add]
    exact (auditLog_of_fresh (h _ (List.getElem_mem hi))).2
  rw [auditStandard, Audit.conclude_of_ok hresult]
  refine ⟨rfl, ?_⟩
  rw [Audit.findings_done, statistics_congr (metrics_each_log hresult), Audit.each, hfindings, hnode]

/-! ### Messages -/

/-- The messages of a report apart from those on exceptions: on logs that are missing, on the test
application, and on metrics. -/
def asides (expectFinish : Bool) (nodes : List Node) : List String :=
  (nodes.mapIdx fun i n =>
      (remarks Kind.standard.name expectFinish i n).filterMap Finding.message?).flatten
    ++ (Statistics.findings Kind.standard.name nodes).filterMap Finding.message?

/-- One message for each exception of a node. -/
def exceptionMessages (place : Nat) (n : Node) : List String :=
  match n.entries? with
  | none => []
  | some es => (es.filter (·.isException)).map (exceptionMessage place "log")

/-- The one warning for a node that has a log in which the test application did not finish. -/
def unfinished (place : Nat) (n : Node) : List String :=
  match n.entries? with
  | none => []
  | some es =>
    if ∃ e ∈ es, e.marker = .testAppFinish then []
    else [s!"Node {place} never reported that the test app finished"]

theorem judgePlain_ne_ignore (closing : Option Instant) (e : Entry) :
    judgePlain closing e ≠ .ignore := by
  unfold judgePlain
  split
  · simp
  · split
    · split <;> simp
    · simp
  · simp

theorem judgeRestart_ne_ignore (e : Entry) : judgeRestart e ≠ .ignore := by
  unfold judgeRestart
  split <;> simp

/-- Only the policy of a reconnection leaves exceptions to another check. -/
theorem judge_ne_ignore {isLast : Bool} (h : policy ≠ .reconnect) :
    policy.judge isLast closing e ≠ .ignore := by
  cases policy with
  | reconnect => exact absurd rfl h
  | restart => exact judgeRestart_ne_ignore e
  | plain => exact judgePlain_ne_ignore closing e

theorem messages_judged (h : policy ≠ .reconnect) :
    (judged policy last place n).filterMap Finding.message? = exceptionMessages place n := by
  have hone : ∀ (message : String) (j : Judgement), j ≠ .ignore →
      (j.finding? message).bind Finding.message? = some message := by
    intro message j hj
    cases j with
    | ignore => exact absurd rfl hj
    | _ => rfl
  unfold judged exceptionMessages
  cases n.entries? with
  | none => rfl
  | some es =>
    simp only [exceptionFindings, List.filterMap_filterMap, ← List.filterMap_eq_map]
    exact List.filterMap_congr fun e _ => hone _ _ (judge_ne_ignore h)

/-- Told that the test application should have finished, the check says one thing more of a node
on which it did not. -/
theorem warnings_remarks :
    (remarks validator true place n).filterMap Finding.warning? =
      (remarks validator false place n).filterMap Finding.warning? ++ unfinished place n := by
  unfold remarks unfinished
  cases n.entries? with
  | none => rw [List.append_nil]
  | some es =>
    have hfinished : ((es.filter fun e => isProgress e.marker).any (·.marker = .testAppFinish)) =
        decide (∃ e ∈ es, e.marker = .testAppFinish) := by
      rw [Bool.eq_iff_iff, List.any_eq_true, decide_eq_true_iff]
      constructor
      · rintro ⟨e, he, hm⟩
        exact ⟨e, (List.mem_filter.1 he).1, of_decide_eq_true hm⟩
      · rintro ⟨e, he, hm⟩
        exact ⟨e, List.mem_filter.2 ⟨he, by rw [hm]; rfl⟩, decide_eq_true hm⟩
    simp only [if_true, Bool.false_eq_true, if_false, List.append_nil, List.filterMap_append,
      finishFindings, hfinished, decide_eq_true_eq]
    by_cases hf : ∃ e ∈ es, e.marker = .testAppFinish
    · rw [if_pos hf, if_pos hf]
      rfl
    · rw [if_neg hf, if_neg hf]
      rfl

/-- The report on nodes whose logs can be decoded. -/
theorem exists_report (h : ∀ n ∈ nodes, n.Fresh) (policy : ExceptionPolicy) (expectFinish : Bool) :
    ∃ r, (Validator.standard nodes expectFinish policy).report = .ok r := by
  have hresult : (Validator.standard nodes expectFinish policy).audit.result = .ok () :=
    (auditStandard_of_fresh h).1
  unfold Validator.report Report.ofAudit
  rw [hresult]
  exact ⟨_, rfl⟩

/-- **What is picked out of all findings**, if what is picked out for each node comes in two parts. -/
theorem perm_auditStandard {β : Type} (h : ∀ n ∈ nodes, n.Fresh) (pick : Finding → Option β)
    {f g : Nat → Node → List β}
    (hnode : ∀ i n, ((remarks validator expectFinish i n ++
      judged policy (nodes.length - 1) i n).filterMap pick).Perm (f i n ++ g i n)) :
    ((auditStandard validator expectFinish policy nodes).findings.filterMap pick).Perm
      ((nodes.mapIdx f).flatten ++ (Statistics.findings validator nodes).filterMap pick ++
        (nodes.mapIdx g).flatten) := by
  rw [(auditStandard_of_fresh h).2, List.filterMap_append, filterMap_flatten_mapIdx]
  refine ((perm_flatten_mapIdx hnode nodes).append_right _).trans ?_
  rw [List.append_assoc, List.append_assoc]
  exact List.perm_append_comm.append_left _

/-- **Every exception has exactly one message**, unless the policy leaves some to another check. -/
theorem messages_standard (h : ∀ n ∈ nodes, n.Fresh) (hp : policy ≠ .reconnect) {r : Report}
    (hr : (Validator.standard nodes expectFinish policy).report = .ok r) :
    r.messages.Perm (asides expectFinish nodes ++ (nodes.mapIdx exceptionMessages).flatten) := by
  refine (Report.messages_perm hr).trans (perm_auditStandard h Finding.message? fun i n => ?_)
  rw [List.filterMap_append, messages_judged hp]
  exact .refl _

/-- What is said once more if the test application should have finished. -/
theorem warnings_auditStandard (h : ∀ n ∈ nodes, n.Fresh) :
    ((auditStandard validator true policy nodes).findings.filterMap Finding.warning?).Perm
      ((auditStandard validator false policy nodes).findings.filterMap Finding.warning? ++
        (nodes.mapIdx unfinished).flatten) := by
  have hplain : (auditStandard validator false policy nodes).findings = _ :=
    (auditStandard_of_fresh h).2
  rw [hplain, List.filterMap_append, filterMap_flatten_mapIdx]
  refine perm_auditStandard h Finding.warning? fun i n => ?_
  rw [List.filterMap_append, List.filterMap_append, warnings_remarks, List.append_assoc,
    List.append_assoc]
  exact List.perm_append_comm.append_left _

/-- **Told that the test application should have finished**, the check warns once for each node with
a log in which it did not, and all else that it says stays as it is. -/
theorem finish_expected (h : ∀ n ∈ nodes, n.Fresh) (policy : ExceptionPolicy) :
    ∃ r r', (Validator.standard nodes false policy).report = .ok r ∧
      (Validator.standard nodes true policy).report = .ok r' ∧
      r' = { r with warnings := r'.warnings } ∧
      (Validator.standard nodes true policy).events =
        (Validator.standard nodes false policy).events ∧
      r.warnings.Sublist r'.warnings ∧
      r'.warnings.Perm (r.warnings ++ (nodes.mapIdx unfinished).flatten) := by
  obtain ⟨r, hr⟩ := exists_report h policy false
  obtain ⟨r', hr'⟩ := exists_report h policy true
  have hgains := (gainsTo_auditStandard Kind.standard.name policy nodes).findings
  -- nothing but warnings is gained
  have hsame : ∀ {β : Type} (pick : Finding → Option β), (∀ m, pick (.warning m) = none) →
      (auditStandard Kind.standard.name true policy nodes).findings.filterMap pick =
        (auditStandard Kind.standard.name false policy nodes).findings.filterMap pick := by
    intro β pick hpick
    have hnone : ∀ f b, Unfinished f → pick f = some b → False := by
      rintro _ b ⟨node, rfl⟩ hb
      rw [hpick] at hb
      cases hb
    exact (hgains.filterMap hnone).eq_of_forall_not fun _ => id
  have hany : ∀ f m, Unfinished f → f.warning? = some m → True := fun _ _ _ _ => trivial
  have hr1 : r = { Report.extend { validator := Kind.standard.name }
      (auditStandard Kind.standard.name false policy nodes).findings with validated := true } :=
    eq_of_ofAudit hr
  have hr2 : r' = { Report.extend { validator := Kind.standard.name }
      (auditStandard Kind.standard.name true policy nodes).findings with validated := true } :=
    eq_of_ofAudit hr'
  refine ⟨r, r', hr, hr', ?_, hsame Finding.event? fun _ => rfl, ?_, ?_⟩
  · rw [hr2, hr1]
    simp only [Report.extend, hsame Finding.info? fun _ => rfl, hsame Finding.error? fun _ => rfl]
  · rw [hr2, hr1]
    exact (hgains.filterMap hany).sublist
  · rw [hr2, hr1]
    exact warnings_auditStandard h

/-- **The verdict on every run.** For nodes whose logs can be decoded there is a report, and it is
valid exactly if each node has metrics and a log in which the policy accepts every exception, by the
time that the exception has or has taken over and by that of the last structured line. Each exception
has exactly one message, but for those that the policy of a reconnection leaves to another check. If
the test application should have finished, there is one warning for each node with a log in which
it did not, and nothing else changes. -/
theorem standard_verdict (nodes : List Node) (policy : ExceptionPolicy)
    (h : ∀ n ∈ nodes, n.Fresh) :
    (∀ expectFinish, ∃ r, (Validator.standard nodes expectFinish policy).report = .ok r ∧
      (r.isValid = true ↔ Sound policy nodes) ∧
      (policy ≠ .reconnect →
        r.messages.Perm (asides expectFinish nodes ++ (nodes.mapIdx exceptionMessages).flatten))) ∧
    ∃ r r', (Validator.standard nodes false policy).report = .ok r ∧
      (Validator.standard nodes true policy).report = .ok r' ∧
      r' = { r with warnings := r'.warnings } ∧
      (Validator.standard nodes true policy).events =
        (Validator.standard nodes false policy).events ∧
      r.warnings.Sublist r'.warnings ∧
      r'.warnings.Perm (r.warnings ++ (nodes.mapIdx unfinished).flatten) := by
  refine ⟨fun expectFinish => ?_, finish_expected h policy⟩
  obtain ⟨r, hr⟩ := exists_report h policy expectFinish
  have hvalid : r.isValid = true ↔ (Validator.standard nodes expectFinish policy).Passes := by
    constructor
    · intro hv
      exact ⟨r, hr, hv⟩
    · rintro ⟨r', hr', hv⟩
      cases hr.symm.trans hr'
      exact hv
  exact ⟨r, hr, hvalid.trans (passes_iff_sound h), fun hp => messages_standard h hp hr⟩

/-- A log with an exception that takes over its time from the line before it, and with the time of the
last line. -/
def inheritingLog (closing : String) : String :=
  "2024-03-01 10:00:00 PTD_SUCCESS all handled\n" ++
  "java.net.SocketException: reset\n" ++
  closing ++ " FREEZE_STATE_SAVED round 7"

/-- A node with that log, on which the test application did not finish. -/
def inheritingNode (closing : String) : Node where
  log := some (.ofText .platform (inheritingLog closing))
  metrics := some ⟨[]⟩

theorem inheritingNode_fresh (closing : String) : ∀ n ∈ [inheritingNode closing], n.Fresh := by
  intro n hn c hc
  cases List.mem_singleton.1 hn
  cases hc
  exact ⟨_, rfl⟩

/-- Nothing is wrong with that node unless the exception is too long before the last line. -/
theorem sound_inheritingNode (closing : String) :
    Sound .plain [inheritingNode closing] ↔
      ∀ e ∈ entriesIn (linesOf .platform (utf8 (inheritingLog closing))), e.isException = true →
        judgePlain (runEnd (linesOf .platform (utf8 (inheritingLog closing)))) e ≠ .error := by
  constructor
  · intro hsound e he hx
    obtain ⟨-, text, hlog, haccepts⟩ := hsound 0 _ rfl
    have hlines : linesOf .platform (utf8 (inheritingLog closing)) =
        linesOf .platform (utf8 text) := congrArg Cursor.lines (Option.some.inj hlog)
    rw [hlines] at he ⊢
    have haccepted := haccepts e he hx
    rw [← runEnd_eq] at haccepted
    exact (judge_ne_error fun raised ht => exists_runEnd he ht).2 haccepted
  · intro hjudged i n hn
    cases List.mem_singleton.1 (List.mem_of_getElem? hn)
    refine ⟨rfl, inheritingLog closing, rfl, fun e he hx => ?_⟩
    rw [← runEnd_eq]
    exact (judge_ne_error fun raised ht => exists_runEnd he ht).1 (hjudged e he hx)

/-- Ten seconds after the exception the run may end, but not a nanosecond later. -/
theorem standard_verdict_inheritingNode :
    (∃ r, (Validator.standard [inheritingNode "2024-03-01 10:00:10"] true .plain).report = .ok r ∧
      r.isValid = true ∧
      "Node 0 log has SOCKET_EXCEPTIONS: java.net.SocketException: reset" ∈ r.messages) ∧
    (∃ r, (Validator.standard [inheritingNode "2024-03-01 10:00:10"] true .plain).report = .ok r ∧
      "Node 0 never reported that the test app finished" ∈ r.warnings) ∧
    ∃ r, (Validator.standard [inheritingNode "2024-03-01 10:00:10.000000001"] true .plain).report =
        .ok r ∧ r.isValid = false := by
  -- one evaluation reads the logs for all of it
  obtain ⟨hjudged, hmessage, hwarning, e, he, hx, hlate⟩ :
      (∀ e ∈ entriesIn (linesOf .platform (utf8 (inheritingLog "2024-03-01 10:00:10"))),
        e.isException = true →
        judgePlain (runEnd (linesOf .platform (utf8 (inheritingLog "2024-03-01 10:00:10")))) e ≠
          .error) ∧
      "Node 0 log has SOCKET_EXCEPTIONS: java.net.SocketException: reset" ∈
        ([inheritingNode "2024-03-01 10:00:10"].mapIdx exceptionMessages).flatten ∧
      "Node 0 never reported that the test app finished" ∈
        ([inheritingNode "2024-03-01 10:00:10"].mapIdx unfinished).flatten ∧
      ∃ e ∈ entriesIn (linesOf .platform (utf8 (inheritingLog "2024-03-01 10:00:10.000000001"))),
        e.isException = true ∧
        judgePlain (runEnd (linesOf .platform
          (utf8 (inheritingLog "2024-03-01 10:00:10.000000001")))) e = .error := by
    decide +kernel
  obtain ⟨hall, _, r', -, hr', -, -, -, hwarnings⟩ :=
    standard_verdict [inheritingNode "2024-03-01 10:00:10"] .plain (inheritingNode_fresh _)
  obtain ⟨r, hr, hvalid, hmessages⟩ := hall true
  obtain ⟨late, -⟩ :=
    standard_verdict [inheritingNode "2024-03-01 10:00:10.000000001"] .plain (inheritingNode_fresh _)
  obtain ⟨r'', hr'', hvalid', -⟩ := late true
  refine ⟨⟨r, hr, hvalid.2 ((sound_inheritingNode _).2 hjudged), ?_⟩, ⟨r', hr', ?_⟩, r'', hr'', ?_⟩
  · exact (hmessages (by decide)).mem_iff.2 (List.mem_append_right _ hmessage)
  · exact hwarnings.mem_iff.2 (List.mem_append_right _ hwarning)
  · exact Bool.eq_false_iff.2 fun hv =>
      (sound_inheritingNode _).1 (hvalid'.1 hv) e he hx hlate

end Check.Health

end RunAudit
