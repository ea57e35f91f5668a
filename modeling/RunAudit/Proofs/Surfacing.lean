import Mathlib.Data.List.Basic
import RunAudit.Proofs.Reconnected

/-!
# No exception is passed over

Under the policy of a reconnection the check of every run leaves some exceptions of the last node to
the check that follows its attempts. Between the two, each exception of each log is reported.

* `Covers`: findings that tell of an exception.
* `reports_or_followed`: what a policy leaves out is an exception that the machine follows.
* `covers_standard`, `covers_reconnect`: what each of the two checks tells of.
* `exceptions_surface`: every exception surfaces in a report, and some make the experiment fail.
-/

namespace RunAudit

open Check Config Log Reconnect Time

/-- The logs of the nodes of a source can be read from their starts, whoever asks for them. A node
without a log has none here. -/
def Source.Serves (source : Source) (logs : List (Option (List UInt8))) : Prop :=
  ∀ nodes, source.nodes = .ok nodes →
    nodes.map (·.log) = logs.map (Option.map (Cursor.ofBytes .platform))

/-- A marker of an exception that is expected in no run. -/
def Inexcusable (m : Marker) : Prop :=
  m = .exception ∨ m = .receiveStateIoException ∨ m = .receiveStateHashMismatch ∨
    m = .staleCompensationFailure

/-- A marker of an exception that is judged where attempts to reconnect are followed. -/
def Followed (m : Marker) : Prop :=
  m = .receiveStateError ∨ m = .receiveStateIoException ∨ m = .receiveStateHashMismatch ∨
    m = .staleCompensationFailure

/-- A message that names a node and repeats the text of an entry. -/
def Tells (node : Nat) (e : Entry) (message : String) : Prop :=
  ∃ how : String, message = s!"Node {node} {how}{e.text}"

/-- **Findings that tell of an exception**, as an error if it is expected in no run. -/
def Covers (findings : List Finding) (node : Nat) (e : Entry) : Prop :=
  ∃ f ∈ findings, ∃ message, f.message? = some message ∧ Tells node e message ∧
    (Inexcusable e.marker → f = .error message)

variable {node : Nat} {e : Entry} {es : List Entry}

theorem Covers.mono {fs gs : List Finding} (h : Covers fs node e) (hs : fs ⊆ gs) :
    Covers gs node e := by
  obtain ⟨f, hf, hm⟩ := h
  exact ⟨f, hs hf, hm⟩

/-- Whether a rule reports an entry, as an error if it is expected in no run. -/
def Reports (judge : Entry → Judgement) (e : Entry) : Prop :=
  judge e ≠ .ignore ∧ (Inexcusable e.marker → judge e = .error)

theorem tells_of (how : String) {words : String} (h : words = " " ++ how) :
    Tells node e (s!"Node {node}" ++ words ++ e.text) := by
  subst h
  exact ⟨how, congrArg (· ++ e.text) (String.append_assoc.symm)⟩

/-- A message that is put together from more parts. -/
theorem tells_of_parts (how : String) {words a b c : String} (h : words = " " ++ how) :
    Tells node e (s!"Node {node}" ++ words ++ a ++ b ++ (c ++ e.text)) := by
  have ha : ∀ x y z : String, x ++ y ++ a ++ b ++ (c ++ z) = x ++ (y ++ a ++ b ++ c) ++ z := by
    intro x y z
    simp only [String.append_assoc]
  rw [ha]
  refine tells_of (how ++ a ++ b ++ c) ?_
  rw [h]
  simp only [String.append_assoc]

theorem tells_exceptionMessage (node : Nat) (source : String) (e : Entry) :
    Tells node e (exceptionMessage node source e) := by
  have ha : ∀ a b c d x y : String,
      a ++ b ++ c ++ d ++ x ++ y = a ++ (b ++ c ++ d ++ x) ++ y := by
    intro a b c d x y
    simp only [String.append_assoc]
  exact ⟨_, ha _ _ _ _ _ _⟩

/-- What a rule reports is told of. -/
theorem covers_exceptionFindings {source : String} {judge : Entry → Judgement} (he : e ∈ es)
    (h : Reports judge e) : Covers (exceptionFindings node source judge es) node e := by
  obtain ⟨hj, hi⟩ := h
  have ht := tells_exceptionMessage node source e
  obtain ⟨f, hf⟩ := Option.isSome_iff_exists.1
    ((isSome_finding? (exceptionMessage node source e) (judge e)).2 hj)
  refine ⟨f, mem_exceptionFindings he hf, exceptionMessage node source e, ?_, ht, fun hx => ?_⟩
  · cases hje : judge e <;> rw [hje] at hf <;> cases hf <;> rfl
  · rw [hi hx] at hf
    cases hf
    rfl

theorem reports_plain (runEnd : Option Instant) (e : Entry) : Reports (judgePlain runEnd) e := by
  refine ⟨?_, ?_⟩
  · unfold judgePlain
    repeat' split
    all_goals exact Judgement.noConfusion
  · intro h
    unfold judgePlain
    rcases h with hm | hm | hm | hm <;> rw [hm]

theorem reports_peer (e : Entry) : Reports judgePeer e := by
  refine ⟨?_, ?_⟩
  · unfold judgePeer
    split <;> exact Judgement.noConfusion
  · intro h
    unfold judgePeer
    rcases h with hm | hm | hm | hm <;> rw [hm]

theorem reports_restart (e : Entry) : Reports judgeRestart e := by
  refine ⟨?_, ?_⟩
  · unfold judgeRestart
    split <;> exact Judgement.noConfusion
  · intro h
    unfold judgeRestart
    rcases h with hm | hm | hm | hm <;> rw [hm]

theorem reports_reconnected (h : ¬ Followed e.marker) : Reports judgeReconnected e := by
  refine ⟨?_, ?_⟩
  · unfold judgeReconnected
    split <;> simp_all [Followed]
  · rintro (hm | hm) <;> simp_all [judgeReconnected, Followed]

/-- **What a policy leaves out** is judged where attempts to reconnect are followed. -/
theorem reports_or_followed (policy : ExceptionPolicy) (isLast : Bool) (runEnd : Option Instant)
    (e : Entry) :
    Reports (policy.judge isLast runEnd) e ∨
      policy = .reconnect ∧ isLast = true ∧ Followed e.marker := by
  cases policy with
  | plain => exact .inl (reports_plain runEnd e)
  | restart => exact .inl (reports_restart e)
  | reconnect =>
    cases isLast with
    | false => exact .inl (reports_peer e)
    | true =>
      by_cases h : Followed e.marker
      · exact .inr ⟨rfl, rfl, h⟩
      · exact .inl (reports_reconnected h)

/-- **What the machine follows it tells of**, whatever it knows. -/
theorem covers_step (scenario : ReconnectScenario) (p : Reconnection.Progress)
    (h : Followed e.marker) : Covers (p.step scenario node e).2 node e := by
  unfold Reconnection.Progress.step
  rcases h with hm | hm | hm | hm <;> simp only [hm, transition]
  · split
    · have hi : ¬ Inexcusable e.marker := by simp [Inexcusable, hm]
      exact ⟨_, List.mem_cons_self, _, rfl, tells_of_parts "failed to receive state within " rfl,
        fun hx => absurd hx hi⟩
    · exact ⟨_, List.mem_cons_of_mem _ List.mem_cons_self, _, rfl,
        tells_of "failed to receive state: " rfl, fun _ => rfl⟩
  · exact ⟨_, List.mem_cons_of_mem _ List.mem_cons_self, _, rfl,
      tells_of "hit an I/O exception while receiving state: " rfl, fun _ => rfl⟩
  · exact ⟨_, List.mem_cons_self, _, rfl,
      tells_of "received a state whose hash does not match: " rfl, fun _ => rfl⟩
  · exact ⟨_, List.mem_cons_self, _, rfl,
      tells_of "failed to compensate for stale events: " rfl, fun _ => rfl⟩

/-- Along a whole log it tells of each. -/
theorem covers_follow (scenario : ReconnectScenario) (p : Reconnection.Progress) (he : e ∈ es)
    (h : Followed e.marker) : Covers (p.follow scenario node es).2 node e := by
  induction es generalizing p with
  | nil => cases he
  | cons f es ih =>
    rw [Reconnection.Progress.follow]
    rcases List.mem_cons.1 he with rfl | he
    · exact (covers_step scenario p h).mono (List.subset_append_left _ _)
    · exact (ih _ he).mono (List.subset_append_right _ _)

variable {nodes : List Node} {place : Nat} {n : Node} {lines : List Line} {validator : String}

/-- A check of the log of a node that succeeds tells of what it says of the log. -/
theorem covers_auditLog {α : Type} {missing : α} {check : Nat → Cursor → Audit Cursor α}
    (hl : n.log = some { lines })
    (h : ∃ a, (Node.auditLog validator missing check place n).result = .ok a)
    (hc : ∀ a, (check place { lines }).result = .ok a →
      Covers (check place { lines }).findings place e) :
    Covers (Node.auditLog validator missing check place n).findings place e := by
  unfold Node.auditLog at h ⊢
  rw [hl] at h ⊢
  obtain ⟨a, ha⟩ := h
  exact hc a ha

/-- The check of every run tells of an exception, unless it leaves it to the other. -/
theorem covers_standard {expectFinish : Bool} {policy : ExceptionPolicy}
    (h : (Health.auditStandard validator expectFinish policy nodes).result = .ok ())
    (hn : nodes[place]? = some n) (hl : n.log = some { lines }) (he : e ∈ entriesIn lines)
    (hx : e.isException = true)
    (hf : ¬ (policy = .reconnect ∧ place = nodes.length - 1 ∧ Followed e.marker)) :
    Covers (Health.auditStandard validator expectFinish policy nodes).findings place e := by
  obtain ⟨as, has⟩ := (Audit.result_conclude _).1 h
  obtain ⟨hok, hsub⟩ := Audit.of_each has hn
  refine (covers_auditLog hl hok fun a ha => ?_).mono
    (List.Subset.trans hsub (Audit.findings_conclude _))
  unfold Health.auditLog at ha ⊢
  rcases sweep_cases Health.isProgress (List.flatMap (Health.progressFindings place)) lines with
    ⟨-, c, hs, hex⟩ | ⟨-, hs⟩
  · rw [hs, Audit.conclude_of_ok rfl, Audit.findings_done, Audit.inputs_done, hex]
    refine Covers.mono (covers_exceptionFindings (List.mem_filter.2 ⟨he, hx⟩) ?_)
      (List.Subset.trans (List.subset_append_right _ _) (List.subset_append_right _ _))
    rcases reports_or_followed policy (decide (place = nodes.length - 1)) c.lastTimestamp e with
      hr | ⟨hp, hlast, hm⟩
    · exact hr
    · exact absurd ⟨hp, of_decide_eq_true hlast, hm⟩ hf
  · -- a log that cannot be read makes the check fail
    obtain ⟨b, hb⟩ := (Audit.result_conclude _).1 ha
    rw [hs] at hb
    cases hb

/-- The check that follows attempts to reconnect tells of what is left to it. -/
theorem covers_reconnect {scenario : ReconnectScenario} {start : UInt64}
    (h : (Reconnection.audit validator scenario start nodes).result = .ok ())
    (hn : nodes[nodes.length - 1]? = some n) (hl : n.log = some { lines })
    (he : e ∈ entriesIn lines) (hf : Followed e.marker) :
    Covers (Reconnection.audit validator scenario start nodes).findings (nodes.length - 1) e := by
  have hne : nodes ≠ [] := by
    rintro rfl
    cases hn
  rw [Reconnection.audit_of_ne_nil start hne] at h ⊢
  obtain ⟨as, has⟩ := (Audit.result_conclude _).1 h
  obtain ⟨hok, hsub⟩ := Audit.of_each has hn
  refine (covers_auditLog hl hok fun a ha => ?_).mono
    (List.Subset.trans hsub (Audit.findings_conclude _))
  unfold Reconnection.auditLog Reconnection.auditScan at ha ⊢
  rw [if_pos rfl] at ha ⊢
  rcases sweep_cases concerns
    (fun es => (Reconnection.Progress.follow scenario (nodes.length - 1) {} es).2) lines with
    ⟨-, c, hs, -⟩ | ⟨-, hs⟩
  · rw [hs, Audit.andThen_done, Reconnection.follow_filter]
    exact (covers_follow scenario {} he hf).mono (List.subset_append_left _ _)
  · unfold Audit.andThen at ha
    rw [hs] at ha
    cases ha

variable {source : Source} {c : ExperimentConfig} {logs : List (Option (List UInt8))}
  {bytes : List UInt8}

/-- The node of a log that a source serves. -/
theorem Source.Serves.exists_node (h : source.Serves logs) (hn : source.nodes = .ok nodes)
    (hl : logs[place]? = some (some bytes)) :
    ∃ n, nodes[place]? = some n ∧ n.log = some { lines := linesOf .platform bytes } := by
  have hm := congrArg (·[place]?) (h nodes hn)
  simp only [List.getElem?_map, hl, Option.map_some] at hm
  obtain ⟨n, hn', hlog⟩ := Option.map_eq_some_iff.1 hm
  exact ⟨n, hn', hlog⟩

theorem log_read {wording : Wording} {contents : NodeContents}
    (h : contents.read wording = .ok n) :
    n.log = contents.log.map (Cursor.ofBytes .platform) := by
  unfold NodeContents.read Node.ofBytes at h
  cases hm : contents.metrics with
  | none =>
    simp only [hm, bind, Except.bind, pure, Except.pure, Except.ok.injEq] at h
    exact h ▸ rfl
  | some bytes =>
    cases ht : Metrics.Table.read? bytes with
    | none => simp [hm, ht, bind, Except.bind, throw, throwThe, MonadExceptOf.throw] at h
    | some table =>
      simp only [hm, ht, bind, Except.bind, pure, Except.pure, Except.ok.injEq] at h
      exact h ▸ rfl

/-- A source of some contents serves their logs. -/
theorem serves_ofContents (wording : Wording) (contents : List NodeContents)
    (streams : List (Option EventStream.StreamData)) (snapshots : List (Option (List UInt8))) :
    (Source.ofContents wording contents streams snapshots).Serves (contents.map (·.log)) := by
  intro nodes h
  change contents.mapM (NodeContents.read wording) = .ok nodes at h
  induction contents generalizing nodes with
  | nil =>
    cases h
    rfl
  | cons first contents ih =>
    rw [List.mapM_cons] at h
    cases hf : first.read wording with
    | error failure => simp [hf, bind, Except.bind] at h
    | ok n =>
      cases hr : contents.mapM (NodeContents.read wording) with
      | error failure => simp [hf, hr, bind, Except.bind] at h
      | ok rest =>
        simp only [hf, hr, bind, Except.bind, pure, Except.pure, Except.ok.injEq] at h
        subst h
        simp only [List.map_cons, log_read hf, ih rest hr]

/-- **Some required check tells of each exception**, if it can be run to its end. -/
theorem covered (h : source.Serves logs) (c : ExperimentConfig)
    (hl : logs[place]? = some (some bytes)) (he : e ∈ entriesIn (linesOf .platform bytes))
    (hx : e.isException = true) :
    ∃ kind ∈ required c, ∀ v, Validator.create kind source c = .ok v →
      v.audit.result = .ok () → Covers v.audit.findings place e := by
  have hstandard : Kind.standard ∈ required c := (mem_required c .standard).2 rfl
  cases hs : source.nodes with
  | error failure =>
    refine ⟨.standard, hstandard, fun v hv => ?_⟩
    simp [Validator.create, hs, bind, Except.bind] at hv
  | ok nodes =>
    obtain ⟨n, hn, hlog⟩ := Source.Serves.exists_node h hs hl
    by_cases hf : ExceptionPolicy.ofConfig c = .reconnect ∧ place = nodes.length - 1 ∧
        Followed e.marker
    · -- the policy of a reconnection comes with the check that follows attempts
      obtain ⟨hp, rfl, hm⟩ := hf
      have hr : c.reconnect.isSome = true := by
        unfold ExceptionPolicy.ofConfig at hp
        split_ifs at hp with h1
        exact h1
      obtain ⟨scenario, hsc⟩ := Option.isSome_iff_exists.1 hr
      refine ⟨.reconnect, (mem_required c .reconnect).2 hr, fun v hv ha => ?_⟩
      simp only [Validator.create, hsc, hs, bind, Except.bind, pure, Except.pure,
        Except.ok.injEq] at hv
      subst hv
      exact covers_reconnect ha hn hlog he hm
    · refine ⟨.standard, hstandard, fun v hv ha => ?_⟩
      simp only [Validator.create, hs, bind, Except.bind, pure, Except.pure,
        Except.ok.injEq] at hv
      subst hv
      exact covers_standard ha hn hlog he hx hf

/-- **No exception is passed over.** An exception that is expected in no run makes the experiment
fail; and if every required check has run, each exception of each log is told of in a message of
some report, with the node and the text of the entry. -/
theorem exceptions_surface (source : Source) (c : ExperimentConfig)
    (logs : List (Option (List UInt8))) (h : source.Serves logs) (place : Nat)
    (bytes : List UInt8) (hl : logs[place]? = some (some bytes)) (e : Entry)
    (he : e ∈ entriesIn (linesOf .platform bytes)) :
    (Inexcusable e.marker → (runAll source c).verdict = .failed) ∧
      ((runAll source c).failures = [] → e.isException = true →
        ∃ r ∈ (runAll source c).reports, ∃ message ∈ r.messages, Tells place e message) := by
  constructor
  · intro hi
    -- a valid report would have to come from findings without an error
    have hx : e.isException = true := by
      unfold Entry.isException
      rcases hi with hm | hm | hm | hm <;> rw [hm] <;> rfl
    obtain ⟨kind, hk, hv⟩ := covered h c hl he hx
    refine (verdict_failed source c).2 ⟨kind, hk, ?_⟩
    rintro ⟨r, hr, hvalid⟩
    obtain ⟨v, hcreate, hreport⟩ := outcome_ok hr
    obtain ⟨hok, hfaultless⟩ := (isValid_ofAudit v.name v.audit).1 ⟨r, hreport, hvalid⟩
    obtain ⟨f, hf, message, -, -, herror⟩ := hv v hcreate hok
    exact (faultless_iff _).1 hfaultless message (herror hi ▸ hf)
  · intro hfailures hx
    obtain ⟨kind, hk, hv⟩ := covered h c hl he hx
    obtain ⟨r, hr⟩ := (failures_runAll source c).1 hfailures kind hk
    obtain ⟨v, hcreate, hreport⟩ := outcome_ok hr
    obtain ⟨hok, hmessages⟩ := of_ofAudit hreport
    obtain ⟨f, hf, message, hm, ht, -⟩ := hv v hcreate hok
    exact ⟨r, (mem_reports source c r).2 ⟨kind, hk, hr⟩, message,
      (hmessages message).2 ⟨f, hf, hm⟩, ht⟩

/-- The log of a node that receives a state with the wrong hash while it reconnects. -/
def mismatchLog : List UInt8 :=
  utf8 ("2024-03-01 10:00:00 RECONNECT_START behind\n" ++
    "2024-03-01 10:00:10 RECV_STATE_HASH_MISMATCH hashes differ")

/-- The artifacts of a run of that node alone. -/
def mismatchSource : Source := .ofContents .silent [{ log := some mismatchLog }] [] []

theorem exceptions_surface_mismatch :
    ∃ e ∈ entriesIn (linesOf .platform mismatchLog), e.marker = .receiveStateHashMismatch ∧
      mismatchSource.Serves [some mismatchLog] ∧
      (runAll mismatchSource { reconnect := some .killNode }).verdict = .failed ∧
      ∃ r ∈ (runAll mismatchSource { reconnect := some .killNode }).reports,
        ∃ message ∈ r.messages, Tells 0 e message := by
  have hs : mismatchSource.Serves [some mismatchLog] := serves_ofContents _ _ [] []
  obtain ⟨e, he, hm⟩ : ∃ e ∈ entriesIn (linesOf .platform mismatchLog),
      e.marker = .receiveStateHashMismatch := by decide +kernel
  have hfailures : (runAll mismatchSource { reconnect := some .killNode }).failures = [] := by
    decide +kernel
  obtain ⟨h1, h2⟩ := exceptions_surface mismatchSource { reconnect := some .killNode }
    [some mismatchLog] hs 0 mismatchLog rfl e he
  exact ⟨e, he, hm, hs, h1 (.inr (.inr (.inl hm))),
    h2 hfailures (by unfold Entry.isException; rw [hm]; rfl)⟩

end RunAudit
