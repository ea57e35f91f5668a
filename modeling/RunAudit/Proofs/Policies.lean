import Mathlib.Data.List.Basic
import RunAudit.Proofs.Isolation
import RunAudit.Proofs.Reconnected

/-!
# Policies follow the scenarios

The check of every run judges exceptions by a policy, and the check of a scenario judges them by
rules of its own. Both read each log to its end, by different searches, so both see the same
exceptions. Here it is shown that the policy of a scenario takes nothing for an error that the
check of the scenario accepts.

* `Acceptable`: a log that can be read to its end, with no exception that a rule takes for an error.
* `passes_standard`: the check of every run passes exactly if each log is acceptable to its policy
  and each node has metrics.
* `accepted_of_reconnect`, `accepted_of_restart`, `accepted_of_recovery`: what a check of a
  scenario that passes says of the logs.
* `standard_follows_scenario`: the check of every run never contradicts the check of a scenario.
-/

namespace RunAudit

open Check Config Log Time

/-- A node of which the log, if there is one, has not been read yet. -/
def Node.Unread (n : Node) : Prop := ∀ c, n.log = some c → ∃ lines, c = { lines }

theorem Node.Fresh.unread {n : Node} (h : n.Fresh) : n.Unread := by
  intro c hc
  obtain ⟨text, rfl⟩ := h c hc
  exact ⟨_, rfl⟩

/-- A log that can be read to its end, with no exception that a rule takes for an error. -/
def Acceptable (judge : Entry → Judgement) (lines : List Line) : Prop :=
  Decodable lines ∧ ∀ e ∈ entriesIn lines, e.isException = true → judge e ≠ .error

/-- The latest timestamp in a log. -/
def runEnd (lines : List Line) : Option Instant :=
  ((entriesIn lines).filterMap (·.timestamp)).getLast?

/-- **The logs of all nodes are acceptable to a policy.** -/
def LogsAccepted (policy : ExceptionPolicy) (nodes : List Node) : Prop :=
  ∀ i n, nodes[i]? = some n → ∃ lines, n.log = some { lines } ∧
    Acceptable (policy.judge (decide (i = nodes.length - 1)) (runEnd lines)) lines

variable {validator : String} {lines : List Line} {node : Nat} {nodes : List Node} {n : Node}
  {judge : Entry → Judgement}

/-- At the end of a log, the exceptions that a check reports are those of the whole log. -/
theorem faultless_at_end {c : Cursor} {es : List Entry} (h : c.StandsAt es es.length) :
    Faultless (exceptionFindings node "log" judge c.exceptions) ↔
      ∀ e ∈ es, e.isException = true → judge e ≠ .error := by
  rw [faultless_exceptionFindings, h.exceptions, List.take_length]
  simp only [List.mem_filter, and_imp]

/-- A check of the log of a node passes exactly if there is a log and the check of it passes. -/
theorem passes_auditLog {α : Type} (missing : α) (check : Nat → Cursor → Audit Cursor α)
    (place : Nat) :
    (n.auditLog validator missing check place).Passes ↔
      ∃ c, n.log = some c ∧ (check place c).Passes := by
  unfold Node.auditLog
  cases n.log with
  | none => simp [logMissing]
  | some c => simp

/-- **A check of the logs of all nodes** passes exactly if every node has a log and the check of it
passes. -/
theorem passes_each_log {α : Type} (missing : α) (check : Nat → Cursor → Audit Cursor α)
    (h : ∀ n ∈ nodes, n.Unread) :
    (Audit.each (Node.auditLog validator missing check) nodes).Passes ↔
      ∀ i n, nodes[i]? = some n → ∃ lines, n.log = some { lines } ∧ (check i { lines }).Passes := by
  rw [Audit.passes_each]
  refine forall_congr' fun i => forall_congr' fun n => forall_congr' fun hn => ?_
  rw [passes_auditLog]
  constructor
  · rintro ⟨c, hc, hp⟩
    obtain ⟨lines, rfl⟩ := h n (List.mem_of_getElem? hn) c hc
    exact ⟨lines, hc, hp⟩
  · rintro ⟨lines, hc, hp⟩
    exact ⟨_, hc, hp⟩

/-- **A check of the logs of all nodes, none of which has been read yet**, if the entries of a log
decide whether it passes. -/
theorem passes_each_fresh {α : Type} (missing : α) {check : Nat → Cursor → Audit Cursor α}
    {P : List Entry → Prop} (h : ∀ n ∈ nodes, n.Fresh)
    (hP : ∀ place lines, Decodable lines → ((check place { lines }).Passes ↔ P (entriesIn lines))) :
    (Audit.each (Node.auditLog validator missing check) nodes).Passes ↔
      ∀ n ∈ nodes, ∃ es, n.entries? = some es ∧ P es := by
  refine Audit.passes_each_of_iff fun place n hn => ?_
  rcases auditLog_cases (h n hn) validator missing check place with ⟨he, ha⟩ | ⟨lines, hd, he, ha⟩
  · rw [ha, he]
    simp [logMissing]
  · rw [ha, he, Audit.passes_within, hP place lines hd]
    simp

/-- A check that begins with the logs of all nodes and passes has passed on each log. -/
theorem passes_log {α : Type} {missing : α} {check : Nat → Cursor → Audit Cursor α}
    {more : List Node → List α → List Finding} (hu : ∀ n ∈ nodes, n.Unread)
    (h : ((Audit.each (Node.auditLog validator missing check) nodes).conclude more).Passes)
    {i : Nat} (hn : nodes[i]? = some n) :
    ∃ lines, n.log = some { lines } ∧ (check i { lines }).Passes := by
  obtain ⟨as, hok, hf, -⟩ := (Audit.passes_conclude _).1 h
  exact (passes_each_log _ _ hu).1 ⟨⟨as, hok⟩, hf⟩ i n hn

/-- A check of the logs of all nodes leaves their metrics alone. -/
theorem metrics_each_log {α : Type} {missing : α} {check : Nat → Cursor → Audit Cursor α}
    {as : List α} (h : (Audit.each (Node.auditLog validator missing check) nodes).result = .ok as) :
    (Audit.each (Node.auditLog validator missing check) nodes).inputs.map (·.metrics) =
      nodes.map (·.metrics) := by
  obtain ⟨-, hi⟩ := Audit.of_eachFrom h
  have hn : ∀ place n, (Node.auditLog validator missing check place n).inputs.metrics =
      n.metrics := by
    intro place n
    unfold Node.auditLog
    cases n.log <;> rfl
  unfold Audit.each
  rw [hi]
  exact List.ext_getElem (by simp) fun i h1 h2 => by simp [hn]

/-! ### The check of every run -/

/-- One log in the check of every run. -/
theorem passes_healthLog (expectFinish : Bool) (policy : ExceptionPolicy) (last : Nat) :
    (Health.auditLog expectFinish policy last node { lines }).Passes ↔
      Acceptable (policy.judge (decide (node = last)) (runEnd lines)) lines := by
  unfold Health.auditLog
  rw [Audit.passes_conclude]
  rcases sweep_start Health.isProgress (List.flatMap (Health.progressFindings node)) lines with
    ⟨hd, c, hs, hat⟩ | ⟨hd, hs⟩
  · have hprogress : ∀ es : List Entry,
        Faultless (es.flatMap (Health.progressFindings node)) := by
      intro es
      rw [faultless_flatMap]
      intro e _
      unfold Health.progressFindings
      split <;> simp
    have hfinish : ∀ es : List Entry,
        Faultless (if expectFinish then Health.finishFindings node es else []) := by
      intro es
      unfold Health.finishFindings
      split_ifs <;> simp
    have hend : c.lastTimestamp = runEnd lines := by
      rw [hat.lastTimestamp, List.take_length]
      rfl
    simp only [hs, Audit.result_done, Audit.findings_done, Audit.inputs_done, Except.ok.injEq,
      exists_eq_left', hprogress, true_and, faultless_append, hfinish, faultless_at_end hat, hend,
      Acceptable, hd]
  · exact iff_of_false (by simp [hs]) fun h => hd h.1

theorem faultless_statistics (nodes : List Node) :
    Faultless (Statistics.findings validator nodes) ↔ ∀ n ∈ nodes, n.metrics.isSome = true := by
  have hbreach : ∀ t, Faultless (Statistics.breachFindings t nodes) := by
    intro t
    unfold Statistics.breachFindings
    split <;> simp
  have hmissing : ∀ i n, Faultless (Statistics.missingFindings validator i n) ↔
      n.metrics.isSome = true := by
    intro i n
    unfold Statistics.missingFindings
    split <;> simp_all
  unfold Statistics.findings
  rw [faultless_append, faultless_flatMap, and_iff_left fun t _ => hbreach t, faultless_mapIdx]
  simp only [hmissing]
  constructor
  · intro h n hn
    obtain ⟨i, hi⟩ := List.mem_iff_getElem?.1 hn
    exact h i n hi
  · intro h i n hi
    exact h n (List.mem_of_getElem? hi)

/-- **When the check of every run passes.** -/
theorem passes_standard (expectFinish : Bool) (policy : ExceptionPolicy)
    (h : ∀ n ∈ nodes, n.Unread) :
    (Health.auditStandard validator expectFinish policy nodes).Passes ↔
      LogsAccepted policy nodes ∧ ∀ n ∈ nodes, n.metrics.isSome = true := by
  have hlogs : (Audit.each (Node.auditLog validator ()
      (Health.auditLog expectFinish policy (nodes.length - 1))) nodes).Passes ↔
        LogsAccepted policy nodes := by
    rw [passes_each_log _ _ h]
    simp only [passes_healthLog]
    rfl
  unfold Health.auditStandard
  rw [Audit.passes_conclude, ← hlogs, Audit.Passes, and_assoc, ← exists_and_right]
  refine exists_congr fun as => and_congr_right fun has => and_congr_right fun _ => ?_
  -- the metrics are looked at after all logs have been read
  have hm : ∀ ns : List Node, (∀ n ∈ ns, n.metrics.isSome = true) ↔
      ∀ m ∈ ns.map (·.metrics), m.isSome = true := fun ns => by simp
  rw [faultless_statistics, hm, metrics_each_log has, ← hm]

/-! ### The checks of scenarios -/

/-- **A check that reads on to the end** of a log, from wherever an earlier part of it came to, and
then finds nothing wrong with the exceptions. -/
theorem acceptable_of_read {c : Cursor} {k : Nat} (h : c.Follows (inspected lines) k)
    (hc : Cursor.Clear { lines } ↔ c.Clear) {wanted : Marker → Bool}
    {report : List Entry → List Finding} {found : List Entry}
    (hok : (sweep wanted report c).result = .ok found)
    (hf : Faultless
      (exceptionFindings node "log" judge (sweep wanted report c).inputs.exceptions)) :
    Acceptable judge lines := by
  rcases sweep_from wanted report h with ⟨hclear, c', hs, hat⟩ | ⟨-, hs⟩
  · have hd : Decodable lines := (Cursor.clear_start_iff lines).1 (hc.2 hclear)
    rw [hs] at hf
    rw [inspected_of_decodable hd] at hat
    exact ⟨hd, (faultless_at_end hat).1 hf⟩
  · rw [hs] at hok
    cases hok

/-- The log of a node that stayed up while the last one reconnected. -/
theorem acceptable_of_peer (h : (Reconnection.auditPeer node { lines }).Passes) :
    Acceptable judgePeer lines := by
  obtain ⟨found, hok, -, hp⟩ := (Audit.passes_andThen _).1 h
  exact acceptable_of_read (Cursor.follows_start lines) Iff.rfl hok ((Audit.passes_done _ _ _).1 hp)

/-- The log of the node that was made to reconnect. -/
theorem acceptable_of_scan {scenario : ReconnectScenario}
    (h : (Reconnection.auditScan scenario node { lines }).Passes) :
    Acceptable judgeReconnected lines := by
  obtain ⟨found, hok, -, hp⟩ := (Audit.passes_andThen _).1 h
  have hf := (faultless_append _ _).1 ((Audit.passes_done _ _ _).1 hp)
  exact acceptable_of_read (Cursor.follows_start lines) Iff.rfl hok hf.2

/-- The log of a node that was frozen and restarted. -/
theorem acceptable_of_restart (h : (Restart.auditLog node { lines }).Passes) :
    Acceptable judgeRestart lines := by
  obtain ⟨found, hok, -, hp⟩ := (Audit.passes_conclude _).1 h
  exact acceptable_of_read (Cursor.follows_start lines) Iff.rfl hok ((faultless_append _ _).1 hp).2

/-- A search that succeeds keeps a cursor on its list, with as much beyond decoding as before. -/
theorem follows_of_seek {wanted : Marker → Bool} {c : Cursor} {es : List Entry} {k : Nat}
    {answer : Option Entry} (h : c.Follows es k) (hok : (seek wanted c).result = .ok answer) :
    ∃ k', (seek wanted c).inputs.Follows es k' ∧ (c.Clear ↔ (seek wanted c).inputs.Clear) := by
  rcases seek_from wanted h with ⟨c', hs, hf, hc⟩ | ⟨-, hs⟩
  · rw [hs]
    exact ⟨_, hf, hc⟩
  · rw [hs] at hok
    cases hok

/-- The log of a node that recovered its state, which is searched twice before it is read to its
end. -/
theorem acceptable_of_recovery (h : (Recovery.auditLog node { lines }).Passes) :
    Acceptable judgeRestart lines := by
  obtain ⟨saved, hsaved, -, h⟩ := (Audit.passes_andThen _).1 h
  obtain ⟨_, -, -, h⟩ := (Audit.passes_andThen _).1 h
  obtain ⟨finished, hfinished, -, h⟩ := (Audit.passes_andThen _).1 h
  obtain ⟨_, -, -, h⟩ := (Audit.passes_andThen _).1 h
  obtain ⟨found, hok, -, h⟩ := (Audit.passes_andThen _).1 h
  -- neither search hides anything from the one that reads on to the end
  obtain ⟨k, hk, hc⟩ := follows_of_seek (Cursor.follows_start lines) hsaved
  obtain ⟨k', hk', hc'⟩ := follows_of_seek hk hfinished
  exact acceptable_of_read hk' (hc.trans hc') hok ((Audit.passes_done _ _ _).1 h)

/-- **What a reconnection that passes says of the logs.** -/
theorem accepted_of_reconnect {scenario : ReconnectScenario} {start : UInt64}
    (hu : ∀ n ∈ nodes, n.Unread)
    (h : (Reconnection.audit validator scenario start nodes).Passes) :
    LogsAccepted .reconnect nodes := by
  have hne : nodes ≠ [] := by
    rintro rfl
    exact not_faultless_error _ _ h.2
  rw [Reconnection.audit_of_ne_nil start hne] at h
  intro i n hn
  obtain ⟨lines, hl, hp⟩ := passes_log hu h hn
  refine ⟨lines, hl, ?_⟩
  unfold Reconnection.auditLog at hp
  by_cases hi : i = nodes.length - 1
  · rw [if_pos hi] at hp
    simpa [ExceptionPolicy.judge, hi] using acceptable_of_scan hp
  · rw [if_neg hi] at hp
    simpa [ExceptionPolicy.judge, hi] using acceptable_of_peer hp

/-- What a restart that passes says of the logs. -/
theorem accepted_of_restart (hu : ∀ n ∈ nodes, n.Unread)
    (h : (Restart.audit validator nodes).Passes) : LogsAccepted .restart nodes := by
  intro i n hn
  obtain ⟨lines, hl, hp⟩ := passes_log hu h hn
  exact ⟨lines, hl, acceptable_of_restart hp⟩

/-- What a recovery that passes says of the logs. -/
theorem accepted_of_recovery (hu : ∀ n ∈ nodes, n.Unread)
    (h : (Recovery.audit validator nodes).Passes) : LogsAccepted .restart nodes := by
  intro i n hn
  obtain ⟨lines, hl, hp⟩ := passes_log hu h hn
  exact ⟨lines, hl, acceptable_of_recovery hp⟩

/-! ### Both together -/

/-- Whether the validators of a kind check what was done to the nodes. -/
def Kind.isScenario : Kind → Bool
  | .reconnect | .restart | .recoverState => true
  | _ => false

/-- Each scenario has a validator that an experiment with it requires. -/
theorem exists_scenario {c : ExperimentConfig}
    (h : (c.reconnect.isSome || c.freezeRestart || c.recoverState) = true) :
    ∃ kind ∈ required c, kind.isScenario = true := by
  simp only [Bool.or_eq_true] at h
  rcases h with (h | h) | h
  · exact ⟨.reconnect, (mem_required c _).2 h, rfl⟩
  · exact ⟨.restart, (mem_required c _).2 h, rfl⟩
  · exact ⟨.recoverState, (mem_required c _).2 h, rfl⟩

/-- **The policy of an experiment** takes nothing for an error that all of its scenarios accept. -/
theorem accepted_of_config {c : ExperimentConfig} {source : Source}
    (hn : source.nodes = .ok nodes) (hu : ∀ n ∈ nodes, n.Unread)
    (hc : ∃ kind ∈ required c, kind.isScenario = true)
    (h : ∀ kind ∈ required c, kind.isScenario = true →
      ∃ v, Validator.create kind source c = .ok v ∧ v.Passes) :
    LogsAccepted (.ofConfig c) nodes := by
  have hcreate : ∀ (kind : Kind) (v : Validator), kind ∈ required c → kind.isScenario = true →
      Validator.create kind source c = .ok v → v.audit.Passes := by
    intro kind v hk hs hv
    obtain ⟨w, hw, hp⟩ := h kind hk hs
    cases hv.symm.trans hw
    exact v.passes_iff.1 hp
  cases hr : c.reconnect with
  | some scenario =>
    -- a reconnection decides, whatever else was done to the nodes
    have hp := hcreate .reconnect (.reconnect nodes scenario c.savedStateStartRound)
      ((mem_required c _).2 (by simp [Kind.isRequired, hr])) rfl
      (by simp [Validator.create, hr, hn, bind, Except.bind, pure, Except.pure])
    simpa [ExceptionPolicy.ofConfig, hr] using
      accepted_of_reconnect hu ((Audit.passes_within _ _).1 hp)
  | none =>
    obtain ⟨kind, hk, hs⟩ := hc
    have hrequired := (mem_required c kind).1 hk
    cases kind with
    | reconnect => simp [Kind.isRequired, hr] at hrequired
    | restart =>
      have hp := hcreate _ (.restart nodes) hk hs
        (by simp [Validator.create, hn, bind, Except.bind, pure, Except.pure])
      have hf : c.freezeRestart = true := hrequired
      simpa [ExceptionPolicy.ofConfig, hr, hf] using
        accepted_of_restart hu ((Audit.passes_within _ _).1 hp)
    | recoverState =>
      have hp := hcreate _ (.recoverState nodes) hk hs
        (by simp [Validator.create, hn, bind, Except.bind, pure, Except.pure])
      have hf : c.recoverState = true := hrequired
      simpa [ExceptionPolicy.ofConfig, hr, hf] using
        accepted_of_recovery hu ((Audit.passes_within _ _).1 hp)
    | _ => cases hs

/-- A scenario that is validated has loaded its nodes. -/
theorem nodes_of_create {kind : Kind} {source : Source} {c : ExperimentConfig} {v : Validator}
    (hs : kind.isScenario = true) (h : Validator.create kind source c = .ok v) :
    ∃ nodes, source.nodes = .ok nodes := by
  cases hn : source.nodes with
  | ok nodes => exact ⟨nodes, rfl⟩
  | error failure =>
    cases kind with
    | reconnect =>
      cases hr : c.reconnect <;> simp [Validator.create, hr, hn, bind, Except.bind] at h
    | restart | recoverState => simp [Validator.create, hn, bind, Except.bind] at h
    | _ => cases hs

/-- Nodes of which the logs have not been read yet, all with metrics. -/
def Collected (nodes : List Node) : Prop := ∀ n ∈ nodes, n.Unread ∧ n.metrics.isSome = true

/-- When the check of every run comes to a valid report. -/
theorem passes_of_accepted {policy : ExceptionPolicy} (expectFinish : Bool)
    (h : Collected nodes) (hl : LogsAccepted policy nodes) :
    (Validator.standard nodes expectFinish policy).Passes := by
  rw [Validator.passes_iff]
  exact (Audit.passes_within _ _).2 <|
    (passes_standard expectFinish policy fun n hn => (h n hn).1).2 ⟨hl, fun n hn => (h n hn).2⟩

/-- **The check of every run never contradicts the check of a scenario.** Where a reconnection, a
restart or a recovery of state comes to a valid report, the check of every run with the policy of
that scenario does too. So it does in an experiment, with whatever combination of scenarios, if all
of them come to valid reports. -/
theorem standard_follows_scenario :
    (∀ nodes, Collected nodes → ∀ expectFinish,
      (∀ scenario start, (Validator.reconnect nodes scenario start).Passes →
        (Validator.standard nodes expectFinish .reconnect).Passes) ∧
      ((Validator.restart nodes).Passes ∨ (Validator.recoverState nodes).Passes →
        (Validator.standard nodes expectFinish .restart).Passes)) ∧
    (∀ (source : Source) (c : ExperimentConfig),
      (∀ nodes, source.nodes = .ok nodes → Collected nodes) →
      (c.reconnect.isSome || c.freezeRestart || c.recoverState) = true →
      (∀ kind ∈ required c, kind.isScenario = true →
        ∃ r, (runAll source c).report? kind.name = some r ∧ r.isValid = true) →
      ∃ r, (runAll source c).report? Kind.standard.name = some r ∧ r.isValid = true) := by
  constructor
  · intro nodes h expectFinish
    have hu : ∀ n ∈ nodes, n.Unread := fun n hn => (h n hn).1
    constructor
    · intro scenario start hp
      rw [Validator.passes_iff] at hp
      exact passes_of_accepted _ h (accepted_of_reconnect hu ((Audit.passes_within _ _).1 hp))
    · rintro (hp | hp)
      · rw [Validator.passes_iff] at hp
        exact passes_of_accepted _ h (accepted_of_restart hu ((Audit.passes_within _ _).1 hp))
      · rw [Validator.passes_iff] at hp
        exact passes_of_accepted _ h (accepted_of_recovery hu ((Audit.passes_within _ _).1 hp))
  · intro source c h hc hall
    have hpass : ∀ kind ∈ required c, kind.isScenario = true →
        ∃ v, Validator.create kind source c = .ok v ∧ v.Passes :=
      fun kind hk hs => (valid_report_iff hk).1 (hall kind hk hs)
    -- some scenario has run, so the nodes could be loaded
    obtain ⟨kind, hk, hs⟩ := exists_scenario hc
    obtain ⟨v, hcreate, -⟩ := hpass kind hk hs
    obtain ⟨nodes, hn⟩ := nodes_of_create hs hcreate
    have hl : LogsAccepted (.ofConfig c) nodes :=
      accepted_of_config hn (fun n hm => (h nodes hn n hm).1) ⟨kind, hk, hs⟩ hpass
    refine (valid_report_iff ((mem_required c _).2 rfl)).2
      ⟨.standard nodes c.expectFinish (.ofConfig c), ?_, passes_of_accepted _ (h nodes hn) hl⟩
    simp [Validator.create, hn, bind, Except.bind, pure, Except.pure]

/-- The log of a node that reconnected, and that came back from the state it froze. -/
def returnedLog : String :=
  "2024-03-01 10:00:00 STATE_SAVED round 120\n" ++
  "2024-03-01 10:00:10 FREEZE_STATE_SAVED round 120\n" ++
  "2024-03-01 10:00:20 SOCKET_EXCEPTIONS lost\n" ++
  "2024-03-01 10:00:30 LOAD_RESTART round 120\n" ++
  "2024-03-01 10:00:40 RECONNECT_START behind\n" ++
  "2024-03-01 10:00:50 RECONNECT_FINISHED again\n" ++
  "2024-03-01 10:01:00 PTD_FINISH done"

/-- The only node of a run in which all was done to it at once. -/
def returnedNode : Node where
  log := some (.ofText .platform returnedLog)
  metrics := some ⟨[⟨Reconnection.roundMetric, []⟩]⟩

/-- An experiment on that node, with all three scenarios. -/
def returnedConfig : ExperimentConfig :=
  { reconnect := some .killNode, freezeRestart := true, recoverState := true }

theorem returnedNode_fresh : returnedNode.Fresh := by
  intro c hc
  cases hc
  exact ⟨_, rfl⟩

theorem returnedNode_reconnects : (Validator.reconnect [returnedNode] .killNode 0).Passes := by
  have hpeers : ∀ peer ∈ ([] : List Node), peer.Fresh := by simp
  have hlog : Reconnection.Reconnected .killNode
      (entriesIn (linesOf .platform (utf8 returnedLog))) := by
    rw [Reconnection.reconnected_iff_auditScan .killNode 0]
    decide +kernel
  have hround : Reconnection.CaughtUp 0 [] returnedNode := by
    refine ⟨Quantity.ofNat 0, rfl, ?_, ?_⟩
    · simp only [Quantity.ofNat]
      -- the kernel computes with doubles once the literal is one
      unfold Decimal.Literal.toFloat
      decide +kernel
    · intro lowest hl
      cases hl
  obtain ⟨hok, hf⟩ :=
    Reconnection.audit_of_fresh Kind.reconnect.name .killNode 0 hpeers returnedNode_fresh
  rw [Validator.passes_iff]
  exact ⟨⟨(), hok⟩, hf.2 ⟨by simp, ⟨_, rfl, hlog⟩, hround⟩⟩

theorem standard_follows_scenario_returnedNode :
    Collected [returnedNode] ∧
      (Validator.standard [returnedNode] true .reconnect).Passes ∧
      (Validator.standard [returnedNode] true .restart).Passes ∧
      ∃ r, (runAll ⟨1, .ok [returnedNode], .ok [], .ok [], .silent⟩ returnedConfig).report?
        Kind.standard.name = some r ∧ r.isValid = true := by
  have hcollected : Collected [returnedNode] := by
    intro n hn
    cases List.mem_singleton.1 hn
    exact ⟨returnedNode_fresh.unread, rfl⟩
  have hchecks : (Validator.restart [returnedNode]).Passes ∧
      (Validator.recoverState [returnedNode]).Passes := by decide +kernel
  obtain ⟨hrestart, hrecover⟩ := hchecks
  obtain ⟨hpolicy, hexperiment⟩ := standard_follows_scenario
  obtain ⟨hr, hs⟩ := hpolicy [returnedNode] hcollected true
  refine ⟨hcollected, hr .killNode 0 returnedNode_reconnects, hs (.inl hrestart), ?_⟩
  refine hexperiment _ _ ?_ rfl ?_
  · intro nodes hn
    cases hn
    exact hcollected
  · intro kind hk hscenario
    refine (valid_report_iff hk).2 ?_
    cases kind with
    | reconnect => exact ⟨_, rfl, returnedNode_reconnects⟩
    | restart => exact ⟨_, rfl, hrestart⟩
    | recoverState => exact ⟨_, rfl, hrecover⟩
    | _ => cases hscenario

end RunAudit
