import Mathlib.Data.List.Basic
import RunAudit.Proofs.Outcomes

/-!
# When a reconnection is valid

Two judges share the log of the last node: one follows its attempts, and one looks at its
exceptions and leaves those to the first that belong to reconnecting. Here what they accept
together is said of the log itself, one entry and the entries before it at a time.

* `Reconnected`: what the log of the last node must be like.
* `Tracks`: what the state of the machine says of the entries before it, as long as nothing was
  wrong with them.
* `step_tracks`, `follow_tracks`: one entry, and a whole log.
* `reconnected_iff_auditScan`: a log is like that if following it finds nothing wrong.
* `isValid_report_iff`: when the report on a reconnection is valid.
-/

namespace RunAudit.Check.Reconnection

open Config Log Reconnect Time

/-- The latest entry that tells that the node became active. -/
def lastActivation (before : List Entry) : Option Entry :=
  (before.filter (·.marker = .changedToActive)).getLast?

/-- An error while receiving a state that is expected after the entries before it. -/
def Excused (scenario : ReconnectScenario) (before : List Entry) (e : Entry) : Prop :=
  scenario = .killNetwork ∧ ∃ activation active failed, lastActivation before = some activation ∧
    activation.timestamp = some active ∧ e.timestamp = some failed ∧
    active ≤ failed ∧ failed.since active ≤ Instant.seconds 30

/-- Whether a marker starts or ends an attempt. -/
def isAttempt : Marker → Bool
  | .reconnectStart | .reconnectFinished => true
  | _ => false

/-- The starts and ends of attempts, in the order of the log. -/
def attempts (es : List Entry) : List Marker := (es.map (·.marker)).filter isAttempt

/-- **What the log of the last node must be like**: no exceptions but expected ones, and at least
one attempt, each of them finished before the next one starts. -/
structure Reconnected (scenario : ReconnectScenario) (es : List Entry) : Prop where
  expected : ∀ e ∈ es, e.isException = true → e.marker = .socketException ∨
    e.marker = .testingExceptionsAcceptable ∨ e.marker = .receiveStateError
  excused : ∀ before e after, es = before ++ e :: after → e.marker = .receiveStateError →
    Excused scenario before e
  finished : ∀ before after, attempts es = before ++ .reconnectStart :: after →
    after.head? = some .reconnectFinished
  started : .reconnectStart ∈ attempts es

/-- What the log of a node that stayed up must be like. -/
def Spared (es : List Entry) : Prop :=
  ∀ e ∈ es, e.isException = true →
    e.marker = .socketException ∨ e.marker = .testingExceptionsAcceptable

/-- The round that the last node must have ended at. -/
def CaughtUp (start : UInt64) (peers : List Node) (last : Node) : Prop :=
  ∃ round, finalRound last = some round ∧ ¬ round < start.toFloat ∧
    ∀ lowest, Quantity.least (peers.filterMap finalRound) = some lowest →
      ¬ lowest - round > (10.0 : Float)

/-- What may come next in the log of the last node. -/
def Permitted (scenario : ReconnectScenario) (before : List Entry) (e : Entry) : Prop :=
  match e.marker with
  | .reconnectStart => (attempts before).getLast? ≠ some .reconnectStart
  | .receiveStateError => Excused scenario before e
  | .receiveStateIoException | .receiveStateHashMismatch | .staleCompensationFailure => False
  | _ => True

/-- Each entry of the rest of a log may come next after those before it. -/
def AllPermitted (scenario : ReconnectScenario) (before later : List Entry) : Prop :=
  ∀ mid e after, later = mid ++ e :: after → Permitted scenario (before ++ mid) e

/-- **What the machine knows** after entries that it had nothing to say against. -/
structure Tracks (before : List Entry) (p : Progress) : Prop where
  activeAt : p.activeAt = (lastActivation before).bind (·.timestamp)
  phase : p.phase = .reconnecting ↔ (attempts before).getLast? = some .reconnectStart
  finished : p.finished + (if p.phase = .reconnecting then 1 else 0) =
    (attempts before).count .reconnectStart

variable {scenario : ReconnectScenario} {node : Nat} {before es : List Entry} {p : Progress}
  {e : Entry}

theorem tolerated_iff (scenario : ReconnectScenario) (active failed : Option Instant) :
    tolerated scenario active failed = true ↔ scenario = .killNetwork ∧
      ∃ a f, active = some a ∧ failed = some f ∧ a ≤ f ∧ f.since a ≤ Instant.seconds 30 := by
  unfold tolerated
  split
  · rw [Bool.and_eq_true, decide_eq_true_iff, decide_eq_true_iff]
    constructor
    · rintro ⟨h1, h2⟩
      exact ⟨rfl, _, _, rfl, rfl, h1, h2⟩
    · rintro ⟨-, a, f, ha, hf, h1, h2⟩
      cases ha
      cases hf
      exact ⟨h1, h2⟩
  · rename_i hne
    refine iff_of_false Bool.false_ne_true ?_
    rintro ⟨hs, a, f, ha, hf, -⟩
    exact hne a f hs ha hf

theorem excused_iff_tolerated {active : Option Instant}
    (h : active = (lastActivation before).bind (·.timestamp)) :
    Excused scenario before e ↔ tolerated scenario active e.timestamp = true := by
  unfold Excused
  rw [tolerated_iff, h]
  refine and_congr_right fun _ => ?_
  constructor
  · rintro ⟨activation, a, f, hl, ha, hf⟩
    exact ⟨a, f, Option.bind_eq_some_iff.2 ⟨activation, hl, ha⟩, hf⟩
  · rintro ⟨a, f, hb, hf⟩
    obtain ⟨activation, hl, ha⟩ := Option.bind_eq_some_iff.1 hb
    exact ⟨activation, a, f, hl, ha, hf⟩

theorem attempts_append (es fs : List Entry) :
    attempts (es ++ fs) = attempts es ++ attempts fs := by
  simp [attempts]

theorem attempts_of_not (h : isAttempt e.marker = false) :
    attempts (before ++ [e]) = attempts before := by
  simp [attempts, h]

theorem attempts_of_isAttempt (h : isAttempt e.marker = true) :
    attempts (before ++ [e]) = attempts before ++ [e.marker] := by
  simp [attempts, h]

theorem lastActivation_of_ne (h : e.marker ≠ .changedToActive) :
    lastActivation (before ++ [e]) = lastActivation before := by
  simp [lastActivation, h]

/-- An entry that neither starts nor ends an attempt. -/
theorem tracks_of_not_attempt (h : Tracks before p) (hm : isAttempt e.marker = false)
    {activeAt startedAt : Option Instant}
    (ha : activeAt = (lastActivation (before ++ [e])).bind (·.timestamp)) :
    Tracks (before ++ [e]) { p with activeAt, startedAt } := by
  refine ⟨ha, ?_, ?_⟩
  · rw [attempts_of_not hm]; exact h.phase
  · rw [attempts_of_not hm]; exact h.finished

/-- An entry that the machine has no state for. -/
theorem tracks_of_other (h : Tracks before p) (hm : isAttempt e.marker = false)
    (hne : e.marker ≠ .changedToActive) : Tracks (before ++ [e]) p :=
  tracks_of_not_attempt h hm (by rw [lastActivation_of_ne hne]; exact h.activeAt)

/-- A start or an end of an attempt, which opens an attempt or turns an open one into a finished
one. -/
theorem tracks_of_attempt (h : Tracks before p) (hm : isAttempt e.marker = true)
    {phase : Phase} {startedAt : Option Instant} {finished : Nat}
    (hp : phase = .reconnecting ↔ e.marker = .reconnectStart)
    (hf : finished + (if phase = .reconnecting then 1 else 0) =
      p.finished + (if p.phase = .reconnecting then 1 else 0)
        + if e.marker = .reconnectStart then 1 else 0) :
    Tracks (before ++ [e]) { p with phase, startedAt, finished } := by
  have hne : e.marker ≠ .changedToActive := by
    intro hc
    rw [hc] at hm
    cases hm
  refine ⟨?_, ?_, ?_⟩
  · rw [lastActivation_of_ne hne]; exact h.activeAt
  · rw [attempts_of_isAttempt hm, List.getLast?_concat, Option.some.injEq]; exact hp
  · rw [attempts_of_isAttempt hm, List.count_append, ← h.finished, List.count_singleton]
    simpa using hf

/-- A marker that does not concern the machine leaves it as it is, without a finding. -/
theorem step_of_not_concerns (h : concerns e.marker = false) :
    p.step scenario node e = (p, []) := by
  unfold Progress.step
  rw [transition_of_not_concerns h]

theorem tracks_of_not_concerns (h : Tracks before p) (hc : concerns e.marker = false) :
    Tracks (before ++ [e]) p := by
  refine tracks_of_other h ?_ ?_
  · cases hm : e.marker <;> simp_all [concerns, isAttempt]
  · intro hm
    rw [hm] at hc
    cases hc

/-- **One entry.** The machine has nothing to say against it exactly if it may come next, and then
it knows of that entry as well. -/
theorem step_tracks (scenario : ReconnectScenario) (node : Nat) (h : Tracks before p) (e : Entry) :
    (Faultless (p.step scenario node e).2 ↔ Permitted scenario before e) ∧
      (Permitted scenario before e → Tracks (before ++ [e]) (p.step scenario node e).1) := by
  unfold Permitted
  cases hm : e.marker with
  | reconnectStart =>
    cases hp : p.phase with
    | scanning =>
      have hn : (attempts before).getLast? ≠ some .reconnectStart := by
        intro hs
        have hr := h.phase.2 hs
        rw [hp] at hr
        cases hr
      simp only [Progress.step, hm, hp, transition]
      exact ⟨iff_of_true faultless_nil hn,
        fun _ => tracks_of_attempt h (by rw [hm]; rfl) (by simp [hm]) (by simp [hm, hp])⟩
    | reconnecting =>
      -- the attempt under way has not been finished
      have hs := h.phase.1 hp
      simp only [Progress.step, hm, hp, transition]
      exact ⟨iff_of_false (not_faultless_error _ _) (not_not_intro hs), fun hn => absurd hs hn⟩
  | reconnectFinished =>
    -- without a start it is only a warning, and nothing has been finished
    cases hp : p.phase <;> simp only [Progress.step, hm, hp, transition] <;>
      exact ⟨iff_of_true (by simp [finishFindings]) trivial,
        fun _ => tracks_of_attempt h (by rw [hm]; rfl) (by simp [hm]) (by simp [hm, hp])⟩
  | changedToActive =>
    simp only [Progress.step, hm, transition]
    exact ⟨iff_of_true faultless_nil trivial,
      fun _ => tracks_of_not_attempt h (by rw [hm]; rfl) (by simp [lastActivation, hm])⟩
  | receiveStateError =>
    rw [excused_iff_tolerated h.activeAt]
    simp only [Progress.step, hm, transition]
    split
    · rename_i ht
      -- a tolerated error leaves the attempt under way
      exact ⟨iff_of_true (by simp) ht,
        fun _ => tracks_of_other h (by rw [hm]; rfl) (by simp [hm])⟩
    · rename_i ht
      exact ⟨iff_of_false (by simp) ht, fun h => absurd h ht⟩
  | receiveStateIoException | receiveStateHashMismatch | staleCompensationFailure =>
    simp only [Progress.step, hm, transition]
    exact ⟨iff_of_false (by simp) id, False.elim⟩
  | staleCompensationSuccess =>
    simp only [Progress.step, hm, transition]
    exact ⟨iff_of_true (by simp) trivial,
      fun _ => tracks_of_other h (by rw [hm]; rfl) (by simp [hm])⟩
  | _ =>
    have hc : concerns e.marker = false := by rw [hm]; rfl
    rw [step_of_not_concerns hc]
    exact ⟨iff_of_true faultless_nil trivial, fun _ => tracks_of_not_concerns h hc⟩

theorem allPermitted_cons (scenario : ReconnectScenario) (before : List Entry) (e : Entry)
    (later : List Entry) :
    AllPermitted scenario before (e :: later) ↔
      Permitted scenario before e ∧ AllPermitted scenario (before ++ [e]) later := by
  constructor
  · intro h
    refine ⟨by simpa using h [] e later rfl, fun mid f after hl => ?_⟩
    simpa using h (e :: mid) f after (by rw [hl]; rfl)
  · rintro ⟨hfirst, hrest⟩ mid f after hl
    cases mid with
    | nil =>
      rw [List.nil_append, List.cons.injEq] at hl
      rw [List.append_nil, ← hl.1]
      exact hfirst
    | cons m mid =>
      rw [List.cons_append, List.cons.injEq] at hl
      obtain ⟨rfl, hl⟩ := hl
      simpa using hrest mid f after hl

/-- **A whole log.** The machine has nothing to say against it exactly if each entry may come next
after those before it. -/
theorem follow_tracks (scenario : ReconnectScenario) (node : Nat) (h : Tracks before p)
    (later : List Entry) :
    (Faultless (p.follow scenario node later).2 ↔ AllPermitted scenario before later) ∧
    (Faultless (p.follow scenario node later).2 →
      Tracks (before ++ later) (p.follow scenario node later).1) := by
  induction later generalizing before p with
  | nil =>
    refine ⟨iff_of_true faultless_nil ?_, fun _ => ?_⟩
    · intro mid e after hm
      simp at hm
    · rw [List.append_nil]; exact h
  | cons e later ih =>
    obtain ⟨h1, h2⟩ := step_tracks scenario node h e
    rw [Progress.follow, allPermitted_cons, faultless_append, h1]
    refine ⟨and_congr_right fun hp => (ih (h2 hp)).1, ?_⟩
    rintro ⟨hp, hf⟩
    simpa using (ih (h2 hp)).2 hf

/-- Following only the entries that concern the machine is following them all. -/
theorem follow_filter (p : Progress) (es : List Entry) :
    p.follow scenario node (es.filter fun e => concerns e.marker) = p.follow scenario node es := by
  induction es generalizing p with
  | nil => rfl
  | cons e es ih =>
    by_cases hc : concerns e.marker = true
    · rw [List.filter_cons_of_pos (p := fun e : Entry => concerns e.marker) hc]
      simp only [Progress.follow, ih]
    · rw [List.filter_cons_of_neg (p := fun e : Entry => concerns e.marker) hc, ih,
        Progress.follow, step_of_not_concerns (Bool.not_eq_true _ ▸ hc)]
      rfl

/-- A start or an end of an attempt is an entry of the log. -/
theorem exists_of_attempts {xs ys : List Marker} {m : Marker}
    (h : attempts es = xs ++ m :: ys) :
    ∃ before e after, es = before ++ e :: after ∧ e.marker = m ∧ attempts before = xs := by
  obtain ⟨l1, l2, hm, h1, h2⟩ := List.filter_eq_append_iff.1 h
  obtain ⟨r1, r2, rfl, hr, -, -⟩ := List.filter_eq_cons_iff.1 h2
  obtain ⟨before, rest, rfl, rfl, hrest⟩ := List.map_eq_append_iff.1 hm
  obtain ⟨mid, last, rfl, rfl, hlast⟩ := List.map_eq_append_iff.1 hrest
  obtain ⟨e, after, rfl, rfl, -⟩ := List.map_eq_cons_iff.1 hlast
  refine ⟨before ++ mid, e, after, by simp, rfl, ?_⟩
  rw [attempts_append, ← h1]
  have hmid : attempts mid = [] := List.filter_eq_nil_iff.2 hr
  rw [hmid, List.append_nil]
  rfl

theorem isAttempt_of_mem {m : Marker} (h : m ∈ attempts es) :
    m = .reconnectStart ∨ m = .reconnectFinished := by
  have hm := (List.mem_filter.1 h).2
  cases m <;> simp_all [isAttempt]

/-- A start that comes last has not been finished. -/
theorem Reconnected.getLast?_ne (h : Reconnected scenario es) :
    (attempts es).getLast? ≠ some .reconnectStart := by
  intro hlast
  obtain ⟨init, hi⟩ := List.getLast?_eq_some_iff.1 hlast
  cases h.finished init [] hi

theorem Reconnected.allPermitted (h : Reconnected scenario es) : AllPermitted scenario [] es := by
  intro before e after hes
  have hmem : e ∈ es := hes ▸ List.mem_append_right before List.mem_cons_self
  rw [List.nil_append]
  unfold Permitted
  split <;> rename_i hm
  · intro hlast
    obtain ⟨init, hi⟩ := List.getLast?_eq_some_iff.1 hlast
    have ha : attempts (e :: after) = .reconnectStart :: attempts after := by
      unfold attempts
      rw [List.map_cons, hm, List.filter_cons_of_pos rfl]
    cases h.finished init (.reconnectStart :: attempts after) (by
      rw [hes, attempts_append, hi, ha, List.append_assoc]; rfl)
  · exact h.excused before e after hes hm
  -- the other exceptions are not expected
  all_goals first
    | trivial
    | rcases h.expected e hmem (by unfold Entry.isException; rw [hm]; rfl) with hx | hx | hx <;>
        rw [hm] at hx <;> cases hx

/-- No start comes right after another, and none comes last. -/
theorem head?_of_allPermitted (hp : AllPermitted scenario [] es)
    (hlast : (attempts es).getLast? ≠ some .reconnectStart) {xs ys : List Marker}
    (ha : attempts es = xs ++ .reconnectStart :: ys) : ys.head? = some .reconnectFinished := by
  cases ys with
  | nil =>
    rw [ha, List.getLast?_concat] at hlast
    exact absurd rfl hlast
  | cons m ys =>
    have hmem : m ∈ attempts es := by rw [ha]; simp
    rcases isAttempt_of_mem hmem with rfl | rfl
    · -- the second start was not permitted where it stands
      have ha' : attempts es = (xs ++ [.reconnectStart]) ++ .reconnectStart :: ys := by
        rw [ha]; simp
      obtain ⟨before, e, after, hes, hm, hbefore⟩ := exists_of_attempts ha'
      have hpe := hp before e after hes
      unfold Permitted at hpe
      rw [hm, List.nil_append, hbefore, List.getLast?_concat] at hpe
      exact absurd rfl hpe
    · rfl

theorem judgeReconnected_ne_error (e : Entry) : judgeReconnected e ≠ .error ↔
    e.marker = .socketException ∨ e.marker = .testingExceptionsAcceptable ∨
      e.marker = .receiveStateError ∨ e.marker = .receiveStateIoException ∨
      e.marker = .receiveStateHashMismatch ∨ e.marker = .staleCompensationFailure := by
  unfold judgeReconnected
  cases e.marker <;> simp

/-- **What both judges accept together.** -/
theorem reconnected_iff (es : List Entry) :
    Reconnected scenario es ↔
      AllPermitted scenario [] es ∧ (attempts es).getLast? ≠ some .reconnectStart ∧
      .reconnectStart ∈ attempts es ∧
      ∀ e ∈ es, e.isException = true → judgeReconnected e ≠ .error := by
  constructor
  · intro h
    refine ⟨h.allPermitted, h.getLast?_ne, h.started, fun e he hx => ?_⟩
    rw [judgeReconnected_ne_error]
    rcases h.expected e he hx with hm | hm | hm <;> simp [hm]
  · rintro ⟨hp, hlast, hstart, hj⟩
    refine ⟨?_, ?_, fun xs ys => head?_of_allPermitted hp hlast, hstart⟩
    · intro e he hx
      obtain ⟨before, after, hes⟩ := List.append_of_mem he
      have hpe := hp before e after hes
      unfold Permitted at hpe
      -- what the second judge ignores was left to the first
      rcases (judgeReconnected_ne_error e).1 (hj e he hx) with hm | hm | hm | hm | hm | hm <;>
        simp_all
    · intro before e after hes hm
      have hpe := hp before e after hes
      unfold Permitted at hpe
      rw [hm] at hpe
      exact hpe

theorem tracks_start : Tracks [] {} := ⟨rfl, by simp [attempts], rfl⟩

theorem faultless_unfinished : Faultless (unfinishedFindings node p) ↔ p.phase ≠ .reconnecting := by
  unfold unfinishedFindings
  split <;> simp_all

theorem faultless_count (finished : Option Nat) :
    Faultless (countFindings node finished) ↔ finished ≠ some 0 := by
  unfold countFindings
  split <;> simp_all

/-- The log of the last node. -/
theorem auditScan_of_decodable (scenario : ReconnectScenario) (node : Nat) {lines : List Line}
    (h : Decodable lines) :
    ∃ fs c finished, auditScan scenario node { lines } = .done fs c (some finished) ∧
      (Faultless (fs ++ countFindings node (some finished)) ↔
        Reconnected scenario (entriesIn lines)) := by
  rcases sweep_cases concerns (fun es => (Progress.follow scenario node {} es).2) lines with
    ⟨-, c, hs, hx⟩ | ⟨hn, -⟩
  · refine ⟨_, c, _, by unfold auditScan; rw [hs, Audit.andThen_done]; rfl, ?_⟩
    rw [follow_filter, hx, reconnected_iff]
    obtain ⟨h1, h2⟩ := follow_tracks scenario node tracks_start (entriesIn lines)
    simp only [List.nil_append] at h1 h2
    simp only [Audit.findings_done, faultless_append, h1, faultless_unfinished,
      faultless_exceptionFindings, faultless_count, List.mem_filter, and_imp, and_assoc]
    -- without an error on the way, the machine knows what the log says
    refine and_congr_right fun hp => ?_
    have ht := h2 (h1.2 hp)
    rw [Ne, ht.phase]
    refine and_congr_right fun hl => ?_
    have hc := ht.finished
    rw [if_neg (fun hr => hl (ht.phase.1 hr)), Nat.add_zero] at hc
    rw [hc, Ne, Option.some.injEq, List.count_eq_zero, not_not]
    exact and_comm
  · exact absurd h hn

/-- A log is as it must be if following it finds nothing wrong and some attempt that finished. -/
theorem reconnected_iff_auditScan (scenario : ReconnectScenario) (node : Nat) (text : String) :
    Reconnected scenario (entriesIn (linesOf .platform (utf8 text))) ↔
      Faultless (auditScan scenario node (.ofText .platform text)).findings ∧
        (auditScan scenario node (.ofText .platform text)).result.toOption ≠ some (some 0) := by
  obtain ⟨fs, c, finished, ha, hf⟩ :=
    auditScan_of_decodable scenario node (decodable_linesOf .platform text)
  have ha' : auditScan scenario node (.ofText .platform text) = .done fs c (some finished) := ha
  rw [ha', ← hf, faultless_append, faultless_count]
  simp [Except.toOption]

theorem judgePeer_ne_error (e : Entry) : judgePeer e ≠ .error ↔
    e.marker = .socketException ∨ e.marker = .testingExceptionsAcceptable := by
  unfold judgePeer
  cases e.marker <;> simp

/-- The log of a node that stayed up. -/
theorem auditPeer_of_decodable (node : Nat) {lines : List Line} (h : Decodable lines) :
    ∃ fs c, auditPeer node { lines } = .done fs c none ∧
      (Faultless fs ↔ Spared (entriesIn lines)) := by
  rcases sweep_cases (fun _ => false) (fun _ => []) lines with ⟨-, c, hs, hx⟩ | ⟨hn, -⟩
  · refine ⟨_, c, by unfold auditPeer finish; rw [hs, Audit.andThen_done]; rfl, ?_⟩
    rw [hx, List.nil_append, Audit.findings_done, faultless_exceptionFindings]
    simp only [judgePeer_ne_error, List.mem_filter, and_imp]
    rfl
  · exact absurd h hn

/-- The check of the log of a node, of which the last is at place `last`. -/
def auditNode (validator : String) (scenario : ReconnectScenario) (last : Nat) :
    Nat → Node → Audit Node (Option Nat) :=
  Node.auditLog validator none (auditLog scenario last)

variable {validator : String} {n : Node}

/-- A node that stayed up. -/
theorem auditNode_peer (h : n.Fresh) {place last : Nat} (hp : place ≠ last) :
    ∃ fs n', auditNode validator scenario last place n = .done fs n' none ∧
      finalRound n' = finalRound n ∧
      (Faultless fs ↔ ∃ es, n.entries? = some es ∧ Spared es) := by
  unfold auditNode
  rcases auditLog_cases h validator none (auditLog scenario last) place with
    ⟨he, ha⟩ | ⟨lines, hd, he, ha⟩ <;> rw [ha, he]
  · exact ⟨_, n, rfl, rfl, by simp [logMissing]⟩
  · obtain ⟨fs, c, hc, hf⟩ := auditPeer_of_decodable place hd
    unfold auditLog
    rw [if_neg hp, hc]
    exact ⟨fs, { n with log := some c }, rfl, rfl, by simpa using hf⟩

/-- The node that was made to reconnect. -/
theorem auditNode_last (validator : String) (scenario : ReconnectScenario) (h : n.Fresh)
    (last : Nat) :
    ∃ fs n' finished, auditNode validator scenario last last n = .done fs n' finished ∧
      finalRound n' = finalRound n ∧
      (Faultless (fs ++ countFindings last finished) ↔
        ∃ es, n.entries? = some es ∧ Reconnected scenario es) := by
  unfold auditNode
  rcases auditLog_cases h validator none (auditLog scenario last) last with
    ⟨he, ha⟩ | ⟨lines, hd, he, ha⟩ <;> rw [ha, he]
  · exact ⟨_, n, none, rfl, rfl, by simp [logMissing]⟩
  · obtain ⟨fs, c, finished, hc, hf⟩ := auditScan_of_decodable scenario last hd
    unfold auditLog
    rw [if_pos rfl, hc]
    exact ⟨fs, { n with log := some c }, some finished, rfl, rfl, by simpa using hf⟩

theorem faultless_roundFindings (start : UInt64) (peers : List Node) (last : Node) :
    Faultless (roundFindings start peers last) ↔ CaughtUp start peers last := by
  unfold roundFindings CaughtUp
  cases finalRound last with
  | none => simp
  | some round =>
    have hs : Faultless (startFindings peers.length round start) ↔ ¬ round < start.toFloat := by
      unfold startFindings
      split <;> simp_all
    have hl : ∀ lowest, Faultless (lagFindings peers.length round lowest) ↔
        ∀ l, lowest = some l → ¬ l - round > (10.0 : Float) := by
      intro lowest
      cases lowest with
      | none => simp [lagFindings]
      | some l =>
        simp only [lagFindings, Option.some.injEq, forall_eq']
        split
        · rename_i hm
          exact iff_of_false (not_faultless_error _ _) (not_not_intro hm)
        · rename_i hm
          exact iff_of_true (by simp) hm
    simp [hs, hl]

/-- The check of some nodes, of which the last was made to reconnect. -/
theorem audit_of_ne_nil (start : UInt64) {nodes : List Node} (h : nodes ≠ []) :
    audit validator scenario start nodes =
      (Audit.each (auditNode validator scenario (nodes.length - 1)) nodes).conclude
        fun after finished =>
          countFindings (nodes.length - 1) finished.getLast?.join
            ++ match after.getLast? with
              | some node => roundFindings start after.dropLast node
              | none => [] := by
  cases nodes with
  | nil => exact absurd rfl h
  | cons node nodes => rfl

/-- The nodes that stayed up, which come before the last one. -/
theorem auditNode_peers (validator : String) (scenario : ReconnectScenario) {peers : List Node}
    (h : ∀ peer ∈ peers, peer.Fresh) :
    let check := auditNode validator scenario peers.length
    peers.mapIdx (fun i n => (check i n).result) = peers.map (fun _ => .ok none) ∧
      (peers.mapIdx fun i n => (check i n).inputs).filterMap finalRound =
        peers.filterMap finalRound ∧
      (Faultless (peers.mapIdx fun i n => (check i n).findings).flatten ↔
        ∀ peer ∈ peers, ∃ es, peer.entries? = some es ∧ Spared es) := by
  intro check
  have hpeer : ∀ i (hi : i < peers.length), ∃ fs n', check i peers[i] = .done fs n' none ∧
      finalRound n' = finalRound peers[i] ∧
      (Faultless fs ↔ ∃ es, peers[i].entries? = some es ∧ Spared es) := fun i hi =>
    auditNode_peer (h peers[i] (List.getElem_mem hi)) (Nat.ne_of_lt hi)
  refine ⟨List.ext_getElem (by simp) fun i h1 h2 => ?_, ?_, ?_⟩
  · obtain ⟨fs, n', hi, -⟩ := hpeer i (by simpa using h1)
    simp [hi]
  · -- the check reads logs and leaves metrics as they are
    have hm : (peers.mapIdx fun i n => (check i n).inputs).map finalRound =
        peers.map finalRound := by
      refine List.ext_getElem (by simp) fun i h1 h2 => ?_
      obtain ⟨fs, n', hi, hr, -⟩ := hpeer i (by simpa using h2)
      simp [hi, hr]
    have hf := congrArg (List.filterMap id) hm
    rwa [List.filterMap_map, List.filterMap_map] at hf
  · rw [faultless_flatten]
    constructor
    · intro hall peer hm
      obtain ⟨i, hi, rfl⟩ := List.getElem_of_mem hm
      obtain ⟨fs, n', hd, -, hf⟩ := hpeer i hi
      exact hf.1 (hall fs (List.mem_mapIdx.2 ⟨i, hi, by rw [hd]; rfl⟩))
    · intro hall gs hm
      obtain ⟨i, hi, rfl⟩ := List.mem_mapIdx.1 hm
      obtain ⟨fs, n', hd, -, hf⟩ := hpeer i hi
      rw [hd]
      exact hf.2 (hall peers[i] (List.getElem_mem hi))

/-- The check of nodes of which `last` was made to reconnect. It runs to its end. -/
theorem audit_of_fresh (validator : String) (scenario : ReconnectScenario) (start : UInt64)
    {peers : List Node} {last : Node}
    (hp : ∀ peer ∈ peers, peer.Fresh) (hl : last.Fresh) :
    (audit validator scenario start (peers ++ [last])).result = .ok () ∧
      (Faultless (audit validator scenario start (peers ++ [last])).findings ↔
        (∀ peer ∈ peers, ∃ es, peer.entries? = some es ∧ Spared es) ∧
        (∃ es, last.entries? = some es ∧ Reconnected scenario es) ∧
        CaughtUp start peers last) := by
  obtain ⟨hok, hround, hfs⟩ := auditNode_peers validator scenario hp
  obtain ⟨gs, last', finished, hlast, hround', hgs⟩ :=
    auditNode_last validator scenario hl peers.length
  have hres : (Audit.each (auditNode validator scenario peers.length) (peers ++ [last])).result =
      .ok (peers.map (fun _ => none) ++ [finished]) := by
    refine (Audit.result_eachFrom _ _ _ _).2 ?_
    simp [hok, hlast]
  obtain ⟨hall, hins⟩ := Audit.of_eachFrom hres
  simp only [Nat.zero_add, List.mapIdx_concat, hlast, Audit.findings_done, Audit.inputs_done,
    List.flatten_append, List.flatten_cons, List.flatten_nil, List.append_nil] at hall hins
  have hlength : (peers ++ [last]).length - 1 = peers.length := by simp
  rw [audit_of_ne_nil _ (by simp), hlength, Audit.conclude_of_ok hres]
  refine ⟨rfl, ?_⟩
  rw [faultless_append] at hgs
  simp only [Audit.each, hall, hins, Audit.findings_done, List.getLast?_concat,
    List.dropLast_concat, faultless_append, faultless_roundFindings, hfs, ← hgs, and_assoc]
  unfold CaughtUp
  rw [hround, hround']
  rfl

/-- The log of a node that fails to receive a state some time after it became active, and then
reconnects. -/
def returningLog (failed : String) : String :=
  "2024-03-01 10:00:00 CHANGED_TO_ACTIVE active\n" ++
  failed ++ " RECV_STATE_ERROR connection lost\n" ++
  "2024-03-01 10:00:40 RECONNECT_START behind\n" ++
  "2024-03-01 10:00:50 RECONNECT_FINISHED caught up"

end RunAudit.Check.Reconnection
