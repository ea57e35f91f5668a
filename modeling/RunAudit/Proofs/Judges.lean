import Mathlib.Data.List.Basic
import RunAudit.Proofs.Attempts
import RunAudit.Proofs.Surfacing

/-!
# Every exception is judged once

The exceptions of the last node are judged in two places: some are remarked on while the attempts
of its log are followed, and the list of its exceptions is gone through at the end. Which of the
two speaks is decided by the marker alone, and both never do.

* `JudgedOnce`: one of the two places reports an exception, and the other is silent.
* `judged_once_of_followed`, `judged_once_of_not_followed`: the two cases.
* `audit_of_last`: what a report on a reconnection is made of.
* `judged_exactly_once`: the exceptions of the last node in that report.
-/

namespace RunAudit.Check.Reconnection

open Config Log Reconnect Time

/-- What the list of exceptions has to say of one entry. -/
def listed (node : Nat) (e : Entry) : List Finding :=
  exceptionFindings node "log" judgeReconnected ([e].filter (·.isException))

/-- An exception that is expected after the entries before it. -/
def Expected (scenario : ReconnectScenario) (before : List Entry) (e : Entry) : Prop :=
  e.marker = .socketException ∨ e.marker = .testingExceptionsAcceptable ∨
    e.marker = .receiveStateError ∧ Excused scenario before e

/-- A message for an exception: an info if it is expected, and otherwise an error. -/
def Judges (scenario : ReconnectScenario) (node : Nat) (before : List Entry) (e : Entry)
    (f : Finding) : Prop :=
  ∃ message, Tells node e message ∧
    (Expected scenario before e ∧ f = .info message ∨
      ¬ Expected scenario before e ∧ f = .error message)

/-- The findings that are messages, and not events. -/
def spoken (findings : List Finding) : List Finding := findings.filter (·.message?.isSome)

/-- **An exception that is judged once**: either it is remarked on or it is listed. -/
def JudgedOnce (scenario : ReconnectScenario) (node : Nat) (before : List Entry) (e : Entry) :
    Prop :=
  ∃ f, Judges scenario node before e f ∧
    (spoken (remarks scenario node before e) = [f] ∧ listed node e = [] ∨
      spoken (remarks scenario node before e) = [] ∧ listed node e = [f])

/-- What is said of the log of the last node: the remarks on its entries, what is said at its end,
and the list of its exceptions. -/
def lastFindings (scenario : ReconnectScenario) (node : Nat) (es : List Entry) : List Finding :=
  (overLog (remarks scenario node) es).flatten
    ++ unfinishedFindings node (Progress.follow scenario node {} es).1
    ++ es.flatMap (listed node)

variable {scenario : ReconnectScenario} {node : Nat} {before es : List Entry} {e : Entry}

theorem listed_of_exception (h : e.isException = true) : listed node e =
    ((judgeReconnected e).finding? (exceptionMessage node "log" e)).toList := by
  have hone : [e].filter (·.isException) = [e] := List.filter_cons_of_pos h
  unfold listed exceptionFindings
  rw [hone, List.filterMap_eq_flatMap_toList, List.flatMap_singleton]

theorem exceptionFindings_filter (node : Nat) (es : List Entry) :
    exceptionFindings node "log" judgeReconnected (es.filter (·.isException)) =
      es.flatMap (listed node) := by
  induction es with
  | nil => rfl
  | cons e es ih =>
    have happ : (e :: es).filter (·.isException) =
        [e].filter (·.isException) ++ es.filter (·.isException) := by
      rw [← List.filter_append, List.singleton_append]
    rw [happ, List.flatMap_cons, ← ih]
    unfold listed exceptionFindings
    rw [List.filterMap_append]

/-- What is followed is not listed. -/
theorem judged_once_of_followed (scenario : ReconnectScenario) (node : Nat) (before : List Entry)
    (hx : e.isException = true) (hf : Followed e.marker) : JudgedOnce scenario node before e := by
  have hlisted : listed node e = [] := by
    rw [listed_of_exception hx]
    unfold judgeReconnected
    rcases hf with hm | hm | hm | hm <;> rw [hm] <;> rfl
  have hknows := follow_knows scenario node before
  have hunexpected : e.marker ≠ .receiveStateError → ¬ Expected scenario before e := by
    unfold Expected
    rcases hf with hm | hm | hm | hm <;> simp [hm]
  have herror : ∀ words how, words = " " ++ how → ¬ Expected scenario before e →
      Judges scenario node before e (.error (s!"Node {node}" ++ words ++ e.text)) :=
    fun words how hw hn => ⟨_, tells_of how hw, .inr ⟨hn, rfl⟩⟩
  unfold JudgedOnce remarks
  rcases hf with hm | hm | hm | hm
  · have hexpected : Expected scenario before e ↔ Excused scenario before e := by
      simp [Expected, hm]
    rw [excused_iff_tolerated hknows.activeAt] at hexpected
    simp only [Progress.step, hm, transition]
    split
    · rename_i ht
      exact ⟨_, ⟨_, tells_of_parts "failed to receive state within " rfl,
        .inl ⟨hexpected.2 ht, rfl⟩⟩, .inl ⟨rfl, hlisted⟩⟩
    · rename_i ht
      exact ⟨_, herror _ "failed to receive state: " rfl (mt hexpected.1 ht),
        .inl ⟨rfl, hlisted⟩⟩
  · simp only [Progress.step, hm, transition]
    exact ⟨_, herror _ "hit an I/O exception while receiving state: " rfl
      (hunexpected (by simp [hm])), .inl ⟨rfl, hlisted⟩⟩
  · simp only [Progress.step, hm, transition]
    exact ⟨_, herror _ "received a state whose hash does not match: " rfl
      (hunexpected (by simp [hm])), .inl ⟨rfl, hlisted⟩⟩
  · simp only [Progress.step, hm, transition]
    exact ⟨_, herror _ "failed to compensate for stale events: " rfl
      (hunexpected (by simp [hm])), .inl ⟨rfl, hlisted⟩⟩

/-- What is not followed is listed. -/
theorem judged_once_of_not_followed (scenario : ReconnectScenario) (node : Nat)
    (before : List Entry) (hx : e.isException = true) (hf : ¬ Followed e.marker) :
    JudgedOnce scenario node before e := by
  have hc : concerns e.marker = false := by
    unfold Entry.isException at hx
    unfold Followed at hf
    cases hm : e.marker <;> simp_all [concerns, Marker.isException]
  have hsilent : spoken (remarks scenario node before e) = [] := by
    unfold remarks
    rw [step_of_not_concerns hc]
    rfl
  have hexpected : Expected scenario before e ↔
      e.marker = .socketException ∨ e.marker = .testingExceptionsAcceptable := by
    unfold Expected
    refine or_congr_right (or_iff_left fun hr => hf (.inl hr.1))
  have htells : Tells node e (exceptionMessage node "log" e) := tells_exceptionMessage node "log" e
  unfold JudgedOnce
  rw [listed_of_exception hx]
  by_cases hb : e.marker = .socketException ∨ e.marker = .testingExceptionsAcceptable
  · have hj : judgeReconnected e = .info := by
      unfold judgeReconnected
      rcases hb with hm | hm <;> rw [hm]
    rw [hj]
    exact ⟨_, ⟨_, htells, .inl ⟨hexpected.2 hb, rfl⟩⟩, .inr ⟨hsilent, rfl⟩⟩
  · have hj : judgeReconnected e = .error := by
      by_contra hn
      unfold Followed at hf
      rcases (judgeReconnected_ne_error e).1 hn with hm | hm | hm <;> simp_all
    rw [hj]
    exact ⟨_, ⟨_, htells, .inr ⟨mt hexpected.1 hb, rfl⟩⟩, .inr ⟨hsilent, rfl⟩⟩

variable {validator : String} {peers : List Node} {last : Node} {text : String}

theorem finalRound_auditNode (validator : String) (scenario : ReconnectScenario) (last place : Nat)
    (n : Node) :
    finalRound (auditNode validator scenario last place n).inputs = finalRound n := by
  unfold auditNode Node.auditLog
  cases n.log <;> rfl

theorem auditNode_of_last (validator : String) (scenario : ReconnectScenario) (node : Nat)
    (h : last.log = some (.ofText .platform text)) :
    let es := entriesIn (linesOf .platform (utf8 text))
    ∃ last', auditNode validator scenario node node last =
      .done (lastFindings scenario node es) last' (some (finishedAttempts scenario es)) := by
  intro es
  obtain ⟨c, hscan⟩ := auditScan_ofText scenario node text
  refine ⟨{ last with log := some c }, ?_⟩
  unfold auditNode Node.auditLog auditLog
  rw [h]
  simp only [↓reduceIte, hscan, exceptionFindings_filter]
  rfl

/-- Of the nodes only their final rounds matter. -/
theorem roundFindings_congr (start : UInt64) {peers peers' : List Node} {last last' : Node}
    (hp : peers'.map finalRound = peers.map finalRound) (hl : finalRound last' = finalRound last) :
    roundFindings start peers' last' = roundFindings start peers last := by
  have hlength : peers'.length = peers.length := by simpa using congrArg List.length hp
  have hrounds := congrArg (List.filterMap id) hp
  rw [List.filterMap_map, List.filterMap_map] at hrounds
  unfold roundFindings
  simp only [Function.id_comp] at hrounds
  rw [hl, hlength, hrounds]

/-- **What a report on a reconnection is made of.** -/
theorem audit_of_last (start : UInt64) (h : last.log = some (.ofText .platform text))
    (hok : (audit validator scenario start (peers ++ [last])).result = .ok ()) :
    let es := entriesIn (linesOf .platform (utf8 text))
    (audit validator scenario start (peers ++ [last])).findings =
      (peers.mapIdx fun i peer =>
          (auditNode validator scenario peers.length i peer).findings).flatten
        ++ lastFindings scenario peers.length es
        ++ (countFindings peers.length (some (finishedAttempts scenario es))
          ++ roundFindings start peers last) := by
  intro es
  have hlength : (peers ++ [last]).length - 1 = peers.length := by simp
  rw [audit_of_ne_nil _ (by simp), hlength] at hok ⊢
  obtain ⟨finished, hfinished⟩ := (Audit.result_conclude _).1 hok
  rw [Audit.conclude_of_ok hfinished]
  obtain ⟨hfindings, hinputs⟩ := Audit.of_eachFrom hfinished
  have hresults := (Audit.result_eachFrom _ _ _ _).1 hfinished
  obtain ⟨last', hlast⟩ := auditNode_of_last validator scenario peers.length h
  have hround := finalRound_auditNode validator scenario peers.length peers.length last
  have hrounds : (peers.mapIdx fun i peer =>
      (auditNode validator scenario peers.length i peer).inputs).map finalRound =
        peers.map finalRound :=
    List.ext_getElem (by simp) fun i h1 h2 => by simp [finalRound_auditNode]
  rw [hlast, Audit.inputs_done] at hround
  simp only [Nat.zero_add, List.mapIdx_concat, hlast, Audit.findings_done, Audit.inputs_done,
    List.flatten_append, List.flatten_singleton] at hfindings hinputs hresults
  -- the last result is the number of attempts that the last node finished
  have hcount : finished.getLast?.join = some (finishedAttempts scenario es) := by
    have hl := congrArg List.getLast? hresults
    rw [List.getLast?_concat, List.getLast?_map] at hl
    obtain ⟨a, ha, hr⟩ := Option.map_eq_some_iff.1 hl.symm
    cases hr
    rw [ha]
    rfl
  unfold Audit.each
  rw [hfindings, hinputs, hcount]
  simp only [Audit.findings_done, List.getLast?_concat, List.dropLast_concat,
    roundFindings_congr start hrounds hround]
  rfl

/-- **The exceptions of the last node are judged once.** If the logs of the others can be read, then
there is a report, and it has the messages of the others, those on the log of the last one, and
those on the rounds. Each exception of that log is judged by exactly one message, which is either
remarked when the log is followed or listed at its end. The message is an info if the exception is
expected where it stands, and otherwise an error. -/
theorem judged_exactly_once (peers : List Node) (last : Node) (text : String)
    (scenario : ReconnectScenario) (start : UInt64)
    (h : last.log = some (.ofText .platform text)) :
    let v := Validator.reconnect (peers ++ [last]) scenario start
    let node := peers.length
    let es := entriesIn (linesOf .platform (utf8 text))
    let earlier :=
      (peers.mapIdx fun i peer => (auditNode v.name scenario node i peer).findings).flatten
    let later := countFindings node (some (finishedAttempts scenario es))
      ++ roundFindings start peers last
    ((∀ peer ∈ peers, peer.Fresh) → ∃ r, v.report = .ok r) ∧
    (∀ r, v.report = .ok r → r =
      { Report.extend { validator := v.name }
          (earlier ++ lastFindings scenario node es ++ later) with validated := true }) ∧
    ∀ before e after, es = before ++ e :: after →
      if e.isException then JudgedOnce scenario node before e else listed node e = [] := by
  intro v node es earlier later
  refine ⟨fun hpeers => ?_, fun r hr => ?_, fun before e after _ => ?_⟩
  · have hfresh : last.Fresh := by
      intro c hc
      rw [h] at hc
      exact ⟨text, (Option.some.inj hc).symm⟩
    obtain ⟨hok, -⟩ := audit_of_fresh v.name scenario start hpeers hfresh
    have hresult : v.audit.result = .ok () := hok
    unfold Validator.report Report.ofAudit
    rw [hresult]
    exact ⟨_, rfl⟩
  · unfold Validator.report Report.ofAudit at hr
    cases hresult : v.audit.result with
    | error failure =>
      rw [hresult] at hr
      cases hr
    | ok u =>
      rw [hresult] at hr
      have hfindings : v.audit.findings = earlier ++ lastFindings scenario node es ++ later :=
        audit_of_last start h hresult
      rw [← hfindings]
      exact (Except.ok.inj hr).symm
  · split
    · rename_i hx
      by_cases hf : Followed e.marker
      · exact judged_once_of_followed scenario node before hx hf
      · exact judged_once_of_not_followed scenario node before hx hf
    · rename_i hx
      have hnone : [e].filter (·.isException) = [] := List.filter_cons_of_neg hx
      unfold listed
      rw [hnone]
      rfl

theorem judged_exactly_once_returningLog :
    (∃ r, (Validator.reconnect [{
        log := some (.ofText .platform (returningLog "2024-03-01 10:00:30")) }] .killNetwork 0).report =
        .ok r) ∧
      ∃ before e after,
        entriesIn (linesOf .platform (utf8 (returningLog "2024-03-01 10:00:30"))) =
          before ++ e :: after ∧
        e.marker = .receiveStateError ∧ JudgedOnce .killNetwork 0 before e := by
  obtain ⟨hreport, -, hjudged⟩ := judged_exactly_once []
    { log := some (.ofText .platform (returningLog "2024-03-01 10:00:30")) } _ .killNetwork 0 rfl
  obtain ⟨e, he, hm⟩ : ∃ e ∈ entriesIn (linesOf .platform
      (utf8 (returningLog "2024-03-01 10:00:30"))), e.marker = .receiveStateError := by
    decide +kernel
  obtain ⟨before, after, hsplit⟩ := List.append_of_mem he
  have hx : e.isException = true := by unfold Entry.isException; rw [hm]; rfl
  have hjudge := hjudged before e after hsplit
  rw [if_pos hx] at hjudge
  exact ⟨hreport (List.forall_mem_nil _), before, e, after, hsplit, hm, hjudge⟩

end RunAudit.Check.Reconnection
