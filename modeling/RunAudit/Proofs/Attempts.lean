import Mathlib.Data.List.Basic
import RunAudit.Proofs.Inheritance
import RunAudit.Proofs.Reconnected

/-!
# Every attempt is closed once

The machine that follows the log of a reconnecting node knows its phase, the time at which an
attempt started and the number of finished ones. Here an attempt is said of the log itself: a start
opens it, and the first entry behind that closes attempts closes it. What the machine remarks on
each entry is then a matter of the entries before it.

* `Closes`, `Underway`: what closes an attempt, and which attempt is under way.
* `underway_concat`, `underway_unique`: how one more entry changes that, and that there is only one.
* `Knows`: what the machine knows after some entries; `step_knows`, `follow_knows`: one entry, and a
  whole log.
* `findings_follow`: what is said of a log is what is remarked on each of its entries.
* `attempts_closed_once`: how each attempt ends, and what is said of it.
-/

namespace RunAudit.Check.Reconnection

open Config Log Reconnect Time

/-- What `f` makes of each entry of a log, given the entries before it. -/
def overLog {β : Type} (f : List Entry → Entry → β) (es : List Entry) : List β :=
  es.mapIdx fun i e => f (es.take i) e

/-- **Whether an entry closes an attempt**: it starts the next one, finishes this one, or reports
that a state could not be received, unless that is excused. -/
def Closes (scenario : ReconnectScenario) (before : List Entry) (e : Entry) : Prop :=
  match e.marker with
  | .reconnectStart | .reconnectFinished | .receiveStateIoException
  | .receiveStateHashMismatch => True
  | .receiveStateError => ¬ Excused scenario before e
  | _ => False

/-- No entry of the rest of a log closes an attempt. -/
def Lasts (scenario : ReconnectScenario) (before later : List Entry) : Prop :=
  ∀ mid e after, later = mid ++ e :: after → ¬ Closes scenario (before ++ mid) e

/-- **The attempt that is under way** after some entries: `start` has opened it, and nothing behind
`start` has closed it. -/
def Underway (scenario : ReconnectScenario) (before : List Entry) (start : Entry) : Prop :=
  ∃ older during, before = older ++ start :: during ∧ start.marker = .reconnectStart ∧
    Lasts scenario (older ++ [start]) during

/-- Whether an entry finishes the attempt under way. -/
def Finishes (scenario : ReconnectScenario) (before : List Entry) (e : Entry) : Prop :=
  e.marker = .reconnectFinished ∧ ∃ start, Underway scenario before start

open Classical in
/-- The number of attempts that are finished in a log. -/
noncomputable def finishedAttempts (scenario : ReconnectScenario) (es : List Entry) : Nat :=
  (overLog (fun before e => decide (Finishes scenario before e)) es).count true

/-- What the machine says of an entry, after those before it. -/
def remarks (scenario : ReconnectScenario) (node : Nat) (before : List Entry) (e : Entry) :
    List Finding :=
  ((Progress.follow scenario node {} before).1.step scenario node e).2

/-- What may be said of an entry that neither starts nor finishes an attempt. -/
def asides : List String :=
  [" failed to receive state within 30 seconds of becoming active: ", " failed to receive state: ",
   " hit an I/O exception while receiving state: ",
   " received a state whose hash does not match: ", " compensated for stale events: ",
   " failed to compensate for stale events: "]

/-- A finding that an attempt was given up, or that repeats the text of an entry. -/
def Says (node : Nat) (e : Entry) (f : Finding) : Prop :=
  f = .event (.reconnectAborted node) ∨
    ∃ how ∈ asides, f.message? = some (s!"Node {node}" ++ how ++ e.text)

/-- Findings that tell of no attempt but that it was given up. -/
def Aside (node : Nat) (e : Entry) (findings : List Finding) : Prop :=
  ∀ f ∈ findings, Says node e f

/-- **What is said when `closer` closes the attempt that `start` opened.** -/
def SaidAtClose (scenario : ReconnectScenario) (node : Nat) (before : List Entry)
    (start closer : Entry) (findings : List Finding) : Prop :=
  match closer.marker with
  | .reconnectFinished => ∃ started ended, start.timestamp = some started ∧
      closer.timestamp = some ended ∧
      let number := finishedAttempts scenario before + 1
      let seconds := ended.secondsSince started
      findings =
        [.event (.reconnectFinished node (some seconds)),
         .info s!"Node {node} finished reconnect {number} in {seconds} seconds"]
  | .reconnectStart =>
      findings = [.error s!"Node {node} started a new reconnect before the previous one finished"]
  | _ => Aside node closer findings

/-- **How the attempts of a log are accounted for**, with `unfinished` being said at its end. -/
structure Accounted (scenario : ReconnectScenario) (node : Nat) (es : List Entry)
    (unfinished : List Finding) : Prop where
  /-- The first entry behind a start that closes attempts closes this one, or else the end of the
  log does. -/
  closed : ∀ before start later, es = before ++ start :: later →
    start.marker = .reconnectStart →
    (∃ during closer after, later = during ++ closer :: after ∧
      Lasts scenario (before ++ [start]) during ∧
      Closes scenario (before ++ start :: during) closer ∧
      SaidAtClose scenario node (before ++ start :: during) start closer
        (remarks scenario node (before ++ start :: during) closer)) ∨
    (Lasts scenario (before ++ [start]) later ∧ unfinished =
      [.error s!"Node {node} started reconnecting but never finished before its log ended"])
  silent : (∀ start, ¬ Underway scenario es start) → unfinished = []
  opened : ∀ before e later, es = before ++ e :: later → e.marker = .reconnectStart →
    (∀ start, ¬ Underway scenario before start) → remarks scenario node before e = []
  unopened : ∀ before e later, es = before ++ e :: later → e.marker = .reconnectFinished →
    (∀ start, ¬ Underway scenario before start) → remarks scenario node before e =
      [.warning s!"Node {node} finished a reconnect that was never started: {e.text}"]
  aside : ∀ before e later, es = before ++ e :: later → e.marker ≠ .reconnectStart →
    e.marker ≠ .reconnectFinished → Aside node e (remarks scenario node before e)

variable {scenario : ReconnectScenario} {node : Nat} {before es : List Entry} {p : Progress}
  {e start : Entry}

/-! ### Attempts of a log -/

theorem overLog_concat {β : Type} (f : List Entry → Entry → β) (es : List Entry) (e : Entry) :
    overLog f (es ++ [e]) = overLog f es ++ [f es e] := by
  have htake : ∀ i ≤ es.length, (es ++ [e]).take i = es.take i :=
    fun i hi => List.take_append_of_le_length hi
  unfold overLog
  rw [List.mapIdx_concat, htake _ le_rfl, List.take_length]
  congr 1
  refine List.mapIdx_eq_mapIdx_iff.2 fun i hi => ?_
  rw [htake i (Nat.le_of_lt hi)]

theorem mem_overLog {β : Type} {f : List Entry → Entry → β} {es : List Entry} {x : β}
    (h : x ∈ overLog f es) : ∃ before e after, es = before ++ e :: after ∧ x = f before e := by
  obtain ⟨i, hi, rfl⟩ := List.mem_mapIdx.1 h
  refine ⟨es.take i, es[i], es.drop (i + 1), ?_, rfl⟩
  rw [← List.drop_eq_getElem_cons hi, List.take_append_drop]

theorem lasts_nil (scenario : ReconnectScenario) (before : List Entry) :
    Lasts scenario before [] := by
  intro mid e after h
  simp at h

theorem lasts_concat (later : List Entry) :
    Lasts scenario before (later ++ [e]) ↔
      Lasts scenario before later ∧ ¬ Closes scenario (before ++ later) e := by
  constructor
  · intro h
    exact ⟨fun mid f after hl => h mid f (after ++ [e]) (by simp [hl]), h later e [] rfl⟩
  · rintro ⟨hlater, hlast⟩ mid f after hl
    rcases List.eq_nil_or_concat after with rfl | ⟨init, last, rfl⟩
    · obtain ⟨rfl, hf⟩ := List.append_inj' hl rfl
      cases hf
      exact hlast
    · have hinit : later ++ [e] = (mid ++ f :: init) ++ [last] := by simpa using hl
      exact hlater mid f init (List.append_inj' hinit rfl).1

/-- **One more entry** opens an attempt, closes the one under way, or leaves it. -/
theorem underway_concat : Underway scenario (before ++ [e]) start ↔
    e.marker = .reconnectStart ∧ e = start ∨
      ¬ Closes scenario before e ∧ Underway scenario before start := by
  constructor
  · rintro ⟨older, during, hsplit, hstart, hlasts⟩
    rcases List.eq_nil_or_concat during with rfl | ⟨init, last, rfl⟩
    · obtain ⟨-, he⟩ := List.append_inj' hsplit rfl
      cases he
      exact .inl ⟨hstart, rfl⟩
    · rw [List.concat_eq_append] at hsplit hlasts
      rw [← List.cons_append, ← List.append_assoc] at hsplit
      obtain ⟨rfl, he⟩ := List.append_inj' hsplit rfl
      cases he
      obtain ⟨hinit, hlast⟩ := (lasts_concat init).1 hlasts
      refine .inr ⟨?_, older, init, rfl, hstart, hinit⟩
      simpa using hlast
  · rintro (⟨hm, rfl⟩ | ⟨hnot, older, during, rfl, hstart, hlasts⟩)
    · exact ⟨before, [], rfl, hm, lasts_nil _ _⟩
    · refine ⟨older, during ++ [e], by simp, hstart, (lasts_concat during).2 ⟨hlasts, ?_⟩⟩
      simpa using hnot

theorem closes_of_start (h : e.marker = .reconnectStart) : Closes scenario before e := by
  unfold Closes
  rw [h]
  trivial

/-- **No two attempts are under way at once.** -/
theorem underway_unique {older older' during during' : List Entry} {start' : Entry}
    (h : older ++ start :: during = older' ++ start' :: during')
    (hs : start.marker = .reconnectStart) (hs' : start'.marker = .reconnectStart)
    (hd : Lasts scenario (older ++ [start]) during)
    (hd' : Lasts scenario (older' ++ [start']) during') : older = older' ∧ start = start' := by
  -- the later of two starts would close the attempt of the earlier one
  have hlater : ∀ {l : List Entry} {s s' : Entry} {t d : List Entry}, s'.marker = .reconnectStart →
      ¬ Lasts scenario (l ++ [s]) (t ++ s' :: d) :=
    fun hs' hl => hl _ _ _ rfl (closes_of_start hs')
  rcases List.append_eq_append_iff.1 h with ⟨t, rfl, ht⟩ | ⟨t, rfl, ht⟩ <;> cases t with
  | nil =>
    simp only [List.nil_append, List.cons.injEq] at ht
    simp [ht.1]
  | cons f t =>
    rw [List.cons_append, List.cons.injEq] at ht
    obtain ⟨-, rfl⟩ := ht
    first
      | exact absurd hd (hlater hs')
      | exact absurd hd' (hlater hs)

/-- **An attempt is closed by the first entry behind it that closes attempts**, or it lasts to the
end of the log. -/
theorem closed_or_lasts (scenario : ReconnectScenario) (before later : List Entry) :
    (∃ during closer after, later = during ++ closer :: after ∧ Lasts scenario before during ∧
      Closes scenario (before ++ during) closer) ∨ Lasts scenario before later := by
  induction later using List.reverseRecOn with
  | nil => exact .inr (lasts_nil _ _)
  | append_singleton later e ih =>
    rcases ih with ⟨during, closer, after, rfl, hlasts, hcloses⟩ | hlasts
    · exact .inl ⟨during, closer, after ++ [e], by simp, hlasts, hcloses⟩
    · by_cases hc : Closes scenario (before ++ later) e
      · exact .inl ⟨later, e, [], rfl, hlasts, hc⟩
      · exact .inr ((lasts_concat later).2 ⟨hlasts, hc⟩)

open Classical in
theorem finishedAttempts_concat (scenario : ReconnectScenario) (es : List Entry) (e : Entry) :
    finishedAttempts scenario (es ++ [e]) =
      finishedAttempts scenario es + if Finishes scenario es e then 1 else 0 := by
  unfold finishedAttempts
  rw [overLog_concat, List.count_append, List.count_singleton]
  simp

/-! ### The machine -/

/-- **What the machine knows** after some entries: whether an attempt is under way, since when, and
how many have been finished. -/
structure Knows (scenario : ReconnectScenario) (before : List Entry) (p : Progress) : Prop where
  activeAt : p.activeAt = (lastActivation before).bind (·.timestamp)
  attempt : ∀ start, Underway scenario before start →
    p.phase = .reconnecting ∧ p.startedAt = start.timestamp
  idle : (∀ start, ¬ Underway scenario before start) → p.phase = .scanning
  finished : p.finished = finishedAttempts scenario before

theorem knows_start (scenario : ReconnectScenario) : Knows scenario [] {} := by
  refine ⟨rfl, ?_, fun _ => rfl, rfl⟩
  rintro start ⟨older, during, h, -⟩
  simp at h

theorem Knows.exists_underway (h : Knows scenario before p) (hp : p.phase = .reconnecting) :
    ∃ start, Underway scenario before start := by
  by_contra hn
  have hidle := h.idle (not_exists.1 hn)
  rw [hp] at hidle
  cases hidle

theorem Knows.not_underway (h : Knows scenario before p) (hp : p.phase = .scanning)
    (start : Entry) : ¬ Underway scenario before start := by
  intro hu
  have hr := (h.attempt start hu).1
  rw [hp] at hr
  cases hr

/-- A start opens an attempt. -/
theorem Knows.opened (h : Knows scenario before p) (hm : e.marker = .reconnectStart) :
    Knows scenario (before ++ [e]) { p with phase := .reconnecting, startedAt := e.timestamp } := by
  have hf : ¬ Finishes scenario before e := by simp [Finishes, hm]
  refine ⟨?_, ?_, ?_, ?_⟩
  · rw [lastActivation_of_ne (by simp [hm])]
    exact h.activeAt
  · intro start hu
    rcases underway_concat.1 hu with ⟨-, rfl⟩ | ⟨hn, -⟩
    · exact ⟨rfl, rfl⟩
    · exact absurd (closes_of_start hm) hn
  · intro hn
    exact absurd (underway_concat.2 (.inl ⟨hm, rfl⟩)) (hn e)
  · rw [finishedAttempts_concat, if_neg hf]
    exact h.finished

open Classical in
/-- Any other entry that closes attempts leaves none under way. -/
theorem Knows.closed (h : Knows scenario before p) (hc : Closes scenario before e)
    (hm : e.marker ≠ .reconnectStart) {startedAt : Option Instant} {finished : Nat}
    (hf : finished = p.finished + if Finishes scenario before e then 1 else 0) :
    Knows scenario (before ++ [e]) { p with phase := .scanning, startedAt, finished } := by
  have hne : e.marker ≠ .changedToActive := by
    intro ha
    unfold Closes at hc
    rw [ha] at hc
    exact hc
  refine ⟨?_, ?_, fun _ => rfl, ?_⟩
  · rw [lastActivation_of_ne hne]
    exact h.activeAt
  · intro start hu
    rcases underway_concat.1 hu with ⟨hs, -⟩ | ⟨hn, -⟩
    · exact absurd hs hm
    · exact absurd hc hn
  · rw [finishedAttempts_concat, ← h.finished]
    exact hf

/-- An entry that closes no attempt leaves the one under way. -/
theorem Knows.passed (h : Knows scenario before p) (hc : ¬ Closes scenario before e)
    (activeAt : Option Instant)
    (ha : activeAt = (lastActivation (before ++ [e])).bind (·.timestamp)) :
    Knows scenario (before ++ [e]) { p with activeAt } := by
  have hm : e.marker ≠ .reconnectStart := fun hm => hc (closes_of_start hm)
  have hf : ¬ Finishes scenario before e := by
    rintro ⟨hf, -⟩
    unfold Closes at hc
    rw [hf] at hc
    exact hc trivial
  refine ⟨ha, ?_, ?_, ?_⟩
  · intro start hu
    rcases underway_concat.1 hu with ⟨hs, -⟩ | ⟨-, hu⟩
    · exact absurd hs hm
    · exact h.attempt start hu
  · intro hn
    exact h.idle fun start hu => hn start (underway_concat.2 (.inr ⟨hc, hu⟩))
  · rw [finishedAttempts_concat, if_neg hf]
    exact h.finished

/-- **One entry.** The machine comes to know of it. -/
theorem step_knows (node : Nat) (h : Knows scenario before p) (e : Entry) :
    Knows scenario (before ++ [e]) (p.step scenario node e).1 := by
  cases hm : e.marker with
  | reconnectStart =>
    cases hp : p.phase <;> simp only [Progress.step, hm, hp, transition] <;> exact h.opened hm
  | reconnectFinished =>
    have hc : Closes scenario before e := by unfold Closes; rw [hm]; trivial
    cases hp : p.phase with
    | scanning =>
      have hf : ¬ Finishes scenario before e := fun hf => hf.2.elim (h.not_underway hp)
      simp only [Progress.step, hm, hp, transition]
      exact h.closed hc (by simp [hm]) (by simp [hf])
    | reconnecting =>
      have hf : Finishes scenario before e := ⟨hm, h.exists_underway hp⟩
      simp only [Progress.step, hm, hp, transition]
      exact h.closed hc (by simp [hm]) (by simp [hf])
  | receiveStateError =>
    have hf : ¬ Finishes scenario before e := by simp [Finishes, hm]
    have hx : Closes scenario before e ↔ ¬ Excused scenario before e := by
      unfold Closes; rw [hm]
    rw [excused_iff_tolerated h.activeAt] at hx
    simp only [Progress.step, hm, transition]
    split
    · rename_i ht
      -- a tolerated error leaves the attempt under way
      exact h.passed (fun hc => hx.1 hc ht) p.activeAt
        (by rw [lastActivation_of_ne (by simp [hm])]; exact h.activeAt)
    · rename_i ht
      exact h.closed (hx.2 ht) (by simp [hm]) (by simp [hf])
  | receiveStateIoException | receiveStateHashMismatch =>
    have hf : ¬ Finishes scenario before e := by simp [Finishes, hm]
    have hc : Closes scenario before e := by unfold Closes; rw [hm]; trivial
    simp only [Progress.step, hm, transition]
    exact h.closed hc (by simp [hm]) (by simp [hf])
  | changedToActive =>
    have hc : ¬ Closes scenario before e := by unfold Closes; rw [hm]; exact id
    simp only [Progress.step, hm, transition]
    exact h.passed hc _ (by simp [lastActivation, hm])
  | staleCompensationSuccess | staleCompensationFailure =>
    have hc : ¬ Closes scenario before e := by unfold Closes; rw [hm]; exact id
    simp only [Progress.step, hm, transition]
    exact h.passed hc p.activeAt
      (by rw [lastActivation_of_ne (by simp [hm])]; exact h.activeAt)
  | _ =>
    have hc : ¬ Closes scenario before e := by unfold Closes; rw [hm]; exact id
    rw [step_of_not_concerns (by rw [hm]; rfl)]
    exact h.passed hc p.activeAt
      (by rw [lastActivation_of_ne (by simp [hm])]; exact h.activeAt)

theorem follow_concat (scenario : ReconnectScenario) (node : Nat) (p : Progress)
    (es : List Entry) (e : Entry) :
    p.follow scenario node (es ++ [e]) =
      (((p.follow scenario node es).1.step scenario node e).1,
        (p.follow scenario node es).2
          ++ ((p.follow scenario node es).1.step scenario node e).2) := by
  induction es generalizing p with
  | nil => simp [Progress.follow]
  | cons f es ih =>
    rw [List.cons_append]
    simp only [Progress.follow, ih, List.append_assoc]

/-- **A whole log.** -/
theorem follow_knows (scenario : ReconnectScenario) (node : Nat) (es : List Entry) :
    Knows scenario es (Progress.follow scenario node {} es).1 := by
  induction es using List.reverseRecOn with
  | nil => exact knows_start scenario
  | append_singleton es e ih =>
    rw [follow_concat]
    exact step_knows node ih e

/-- **What is said of a log** is what is remarked on each of its entries in turn. -/
theorem findings_follow (scenario : ReconnectScenario) (node : Nat) (es : List Entry) :
    (Progress.follow scenario node {} es).2 = (overLog (remarks scenario node) es).flatten := by
  induction es using List.reverseRecOn with
  | nil => rfl
  | append_singleton es e ih =>
    rw [follow_concat, overLog_concat, List.flatten_append, ← ih]
    simp [remarks]

/-! ### Remarks -/

/-- An entry that neither starts nor finishes an attempt. -/
theorem aside_step (scenario : ReconnectScenario) (node : Nat) (p : Progress)
    (hs : e.marker ≠ .reconnectStart) (hf : e.marker ≠ .reconnectFinished) :
    Aside node e (p.step scenario node e).2 := by
  -- each message names the node, says how it failed, and repeats the entry
  have htells : ∀ f how, how ∈ asides → f.message? = some (s!"Node {node}" ++ how ++ e.text) →
      Says node e f := fun f how hm hmessage => .inr ⟨how, hm, hmessage⟩
  have haborted : Says node e (.event (.reconnectAborted node)) := .inl rfl
  unfold Aside
  cases hm : e.marker with
  | reconnectStart => exact absurd hm hs
  | reconnectFinished => exact absurd hm hf
  | receiveStateError =>
    simp only [Progress.step, hm, transition]
    split
    · have hhow : " failed to receive state within " ++ toString activeGrace ++ " seconds of " ++
          "becoming active: " = " failed to receive state within 30 seconds of becoming active: " :=
        by decide +kernel
      refine List.forall_mem_singleton.2 (htells _ _ List.mem_cons_self (congrArg some ?_))
      rw [← hhow]
      simp only [String.append_assoc]
      rfl
    · exact List.forall_mem_cons.2 ⟨haborted, List.forall_mem_singleton.2
        (htells _ " failed to receive state: " (by decide) rfl)⟩
  | receiveStateIoException =>
    simp only [Progress.step, hm, transition]
    exact List.forall_mem_cons.2 ⟨haborted, List.forall_mem_singleton.2
      (htells _ " hit an I/O exception while receiving state: " (by decide) rfl)⟩
  | receiveStateHashMismatch =>
    simp only [Progress.step, hm, transition]
    exact List.forall_mem_singleton.2
      (htells _ " received a state whose hash does not match: " (by decide) rfl)
  | staleCompensationSuccess =>
    simp only [Progress.step, hm, transition]
    exact List.forall_mem_singleton.2 (htells _ " compensated for stale events: " (by decide) rfl)
  | staleCompensationFailure =>
    simp only [Progress.step, hm, transition]
    exact List.forall_mem_singleton.2
      (htells _ " failed to compensate for stale events: " (by decide) rfl)
  | changedToActive =>
    simp only [Progress.step, hm, transition]
    exact List.forall_mem_nil _
  | _ =>
    rw [step_of_not_concerns (by rw [hm]; rfl)]
    exact List.forall_mem_nil _

theorem Knows.step_of_opened (node : Nat) (h : Knows scenario before p)
    (hm : e.marker = .reconnectStart) (hn : ∀ start, ¬ Underway scenario before start) :
    (p.step scenario node e).2 = [] := by
  simp only [Progress.step, hm, h.idle hn, transition]

theorem Knows.step_of_reopened (node : Nat) (h : Knows scenario before p)
    (hm : e.marker = .reconnectStart) (hu : Underway scenario before start) :
    (p.step scenario node e).2 =
      [.error s!"Node {node} started a new reconnect before the previous one finished"] := by
  simp only [Progress.step, hm, (h.attempt start hu).1, transition]

theorem Knows.step_of_finished (node : Nat) (h : Knows scenario before p)
    (hm : e.marker = .reconnectFinished) (hu : Underway scenario before start)
    {started ended : Instant} (hs : start.timestamp = some started)
    (he : e.timestamp = some ended) :
    (p.step scenario node e).2 = finishFindings node (finishedAttempts scenario before + 1)
      (some (ended.secondsSince started)) := by
  obtain ⟨hphase, hstarted⟩ := h.attempt start hu
  simp only [Progress.step, hm, hphase, transition, h.finished, hstarted, hs, he]
  rfl

theorem Knows.step_of_unopened (node : Nat) (h : Knows scenario before p)
    (hm : e.marker = .reconnectFinished) (hn : ∀ start, ¬ Underway scenario before start) :
    (p.step scenario node e).2 =
      [.warning s!"Node {node} finished a reconnect that was never started: {e.text}"] := by
  simp only [Progress.step, hm, h.idle hn, transition]

theorem said_at_close (node : Nat) (h : Knows scenario before p)
    (hu : Underway scenario before start) (hs : start.timestamp.isSome = true)
    (he : e.marker = .reconnectFinished → e.timestamp.isSome = true) :
    SaidAtClose scenario node before start e (p.step scenario node e).2 := by
  unfold SaidAtClose
  split
  · rename_i hm
    obtain ⟨started, hstarted⟩ := Option.isSome_iff_exists.1 hs
    obtain ⟨ended, hended⟩ := Option.isSome_iff_exists.1 (he hm)
    exact ⟨started, ended, hstarted, hended, h.step_of_finished node hm hu hstarted hended⟩
  · rename_i hm
    exact h.step_of_reopened node hm hu
  · rename_i hf hs
    exact aside_step scenario node p hs hf

/-- What is said at the end of a log. -/
theorem Knows.unfinished (node : Nat) (h : Knows scenario es p) :
    (∀ start, Underway scenario es start → unfinishedFindings node p =
        [.error s!"Node {node} started reconnecting but never finished before its log ended"]) ∧
      ((∀ start, ¬ Underway scenario es start) → unfinishedFindings node p = []) := by
  unfold unfinishedFindings
  constructor
  · intro start hu
    exact if_pos (h.attempt start hu).1
  · intro hn
    refine if_neg fun hp => ?_
    obtain ⟨start, hu⟩ := h.exists_underway hp
    exact hn start hu

/-- **Every log is accounted for** whose starts and ends of attempts have timestamps. -/
theorem accounted (scenario : ReconnectScenario) (node : Nat)
    (ht : ∀ e ∈ es, e.marker = .reconnectStart ∨ e.marker = .reconnectFinished →
      e.timestamp.isSome = true) :
    Accounted scenario node es
      (unfinishedFindings node (Progress.follow scenario node {} es).1) := by
  obtain ⟨hlasts, hover⟩ := (follow_knows scenario node es).unfinished node
  refine ⟨?_, hover, ?_, ?_, ?_⟩
  · rintro before start later rfl hm
    rcases closed_or_lasts scenario (before ++ [start]) later with
      ⟨during, closer, after, rfl, hduring, hcloses⟩ | hlater
    · left
      rw [List.append_assoc, List.singleton_append] at hcloses
      have hunder : Underway scenario (before ++ start :: during) start :=
        ⟨before, during, rfl, hm, hduring⟩
      refine ⟨during, closer, after, rfl, hduring, hcloses, ?_⟩
      exact said_at_close node (follow_knows scenario node _) hunder
        (ht start (by simp) (.inl hm)) fun hf => ht closer (by simp) (.inr hf)
    · exact .inr ⟨hlater, hlasts start ⟨before, later, rfl, hm, hlater⟩⟩
  · intro before e later _ hm hn
    exact (follow_knows scenario node before).step_of_opened node hm hn
  · intro before e later _ hm hn
    exact (follow_knows scenario node before).step_of_unopened node hm hn
  · intro before e later _ hs hf
    exact aside_step scenario node _ hs hf

/-! ### A message without a duration -/

/-- What would be said of a finished attempt if the time of one of its ends were not known. -/
def untimed (node number : Nat) : String := s!"Node {node} finished reconnect {number}"

theorem untimed_eq (node number : Nat) :
    untimed node number = s!"Node {node}" ++ (" finished reconnect " ++ toString number) := by
  unfold untimed
  exact String.append_assoc

/-- Texts that begin differently. -/
theorem append_ne_append {a b : String} (ha : 3 ≤ a.toList.length) (hb : 3 ≤ b.toList.length)
    (h : a.toList.take 3 ≠ b.toList.take 3) (x y : String) : a ++ x ≠ b ++ y := by
  intro hxy
  have htake := congrArg (fun s : String => s.toList.take 3) hxy
  simp only [String.toList_append] at htake
  rw [List.take_append_of_le_length ha, List.take_append_of_le_length hb] at htake
  exact h htake

theorem ne_untimed_of_says (number : Nat) {f : Finding} (h : Says node e f) :
    f ≠ .info (untimed node number) := by
  rintro rfl
  rcases h with h | ⟨how, hm, h⟩
  · cases h
  · have hbegin : ∀ how ∈ asides, 3 ≤ how.toList.length ∧
        " finished reconnect ".toList.take 3 ≠ how.toList.take 3 := by decide +kernel
    obtain ⟨hl, hne⟩ := hbegin how hm
    have htext : s!"Node {node}" ++ (" finished reconnect " ++ toString number) =
        s!"Node {node}" ++ (how ++ e.text) :=
      (untimed_eq node number).symm.trans ((Option.some.inj h).trans String.append_assoc)
    have hbare : 3 ≤ " finished reconnect ".toList.length := by decide +kernel
    exact append_ne_append hbare hl hne _ _ ((String.append_right_inj _).1 htext)

theorem timed_ne_untimed (node attempt number : Nat) (seconds : Int) :
    s!"Node {node} finished reconnect {attempt} in {seconds} seconds" ≠ untimed node number := by
  have hparts : ∀ x a b c d : String, x ++ a ++ b ++ c ++ d = x ++ (a ++ (b ++ (c ++ d))) := by
    intro x a b c d
    simp only [String.append_assoc]
  intro h
  have hbehind := (String.append_right_inj _).1 ((hparts _ _ _ _ _).symm.trans h)
  have hchars := congrArg String.toList hbehind
  -- a number has no blank in it
  have hblank : ' ' ∈ (toString number).toList := by
    rw [← hchars]
    simp only [String.toList_append, List.mem_append]
    exact .inr (.inl (by decide +kernel))
  have hdigit : ' ' ∈ Nat.toDigits 10 number := by simpa using hblank
  exact absurd (Nat.isDigit_of_mem_toDigits (by decide) (by decide) hdigit) (by decide)

theorem exceptionMessage_ne_untimed (node number : Nat) (e : Entry) :
    exceptionMessage node "log" e ≠ untimed node number := by
  have hparts : exceptionMessage node "log" e =
      s!"Node {node}" ++ (" log has " ++ (e.marker.name ++ ": " ++ e.text)) := by
    have hhow : " " ++ "log" ++ " has " = " log has " := by decide +kernel
    rw [← hhow]
    unfold exceptionMessage
    simp only [String.append_assoc]
    rfl
  rw [hparts, untimed_eq, Ne, String.append_right_inj]
  exact append_ne_append (by decide +kernel) (by decide +kernel) (by decide +kernel) _ _

theorem untimed_notMem_step (node : Nat) (h : Knows scenario before p)
    (hs : ∀ start, Underway scenario before start → start.timestamp.isSome = true)
    (he : e.marker = .reconnectFinished → e.timestamp.isSome = true) (number : Nat) :
    .info (untimed node number) ∉ (p.step scenario node e).2 := by
  by_cases hu : ∃ start, Underway scenario before start
  · obtain ⟨start, hu⟩ := hu
    have hsaid := said_at_close node h hu (hs start hu) he
    unfold SaidAtClose at hsaid
    split at hsaid
    · obtain ⟨started, ended, -, -, hfindings⟩ := hsaid
      rw [hfindings]
      simpa using (timed_ne_untimed node _ number _).symm
    · rw [hsaid]
      simp
    · intro hmem
      exact ne_untimed_of_says number (hsaid _ hmem) rfl
  · rw [not_exists] at hu
    by_cases hopen : e.marker = .reconnectStart
    · rw [h.step_of_opened node hopen hu]
      exact List.not_mem_nil
    · by_cases hclose : e.marker = .reconnectFinished
      · rw [h.step_of_unopened node hclose hu]
        simp
      · intro hmem
        exact ne_untimed_of_says number (aside_step scenario node p hopen hclose _ hmem) rfl

theorem untimed_notMem_exceptionFindings (node number : Nat) (judge : Entry → Judgement)
    (es : List Entry) : .info (untimed node number) ∉ exceptionFindings node "log" judge es := by
  intro hmem
  obtain ⟨e, -, he⟩ := List.mem_filterMap.1 hmem
  cases hj : judge e with
  | info =>
    rw [hj] at he
    exact exceptionMessage_ne_untimed node number e (Finding.info.inj (Option.some.inj he))
  | _ =>
    rw [hj] at he
    cases he

/-- **What the scan of a log comes to**: the remarks on each entry in turn, what is said at the
end, the judgements on the exceptions, and the number of finished attempts. -/
theorem auditScan_ofText (scenario : ReconnectScenario) (node : Nat) (text : String) :
    let es := entriesIn (linesOf .platform (utf8 text))
    ∃ c, auditScan scenario node (.ofText .platform text) =
      .done ((overLog (remarks scenario node) es).flatten
          ++ unfinishedFindings node (Progress.follow scenario node {} es).1
          ++ exceptionFindings node "log" judgeReconnected (es.filter (·.isException)))
        c (some (finishedAttempts scenario es)) := by
  intro es
  rcases sweep_cases concerns (fun es => (Progress.follow scenario node {} es).2)
    (linesOf .platform (utf8 text)) with ⟨-, c, hs, hx⟩ | ⟨hn, -⟩
  · refine ⟨c, ?_⟩
    unfold auditScan Cursor.ofText Cursor.ofBytes
    rw [hs, Audit.andThen_done, follow_filter, hx, findings_follow,
      ← (follow_knows scenario node es).finished, List.append_assoc]
    rfl
  · exact absurd (decodable_linesOf .platform text) hn

/-- **Every attempt is closed once.** The scan of a log says what is remarked on each entry, and
comes to the number of finished attempts. A start opens an attempt, and the first entry behind that
closes attempts closes it, or else the end of the log. An attempt that is finished is numbered and
timed, one that is not is an error, and to finish what was not started is suspicious. No attempt is
ever reported without its duration. -/
theorem attempts_closed_once (scenario : ReconnectScenario) (node : Nat) (text : String) :
    let es := entriesIn (linesOf .platform (utf8 text))
    ∃ unfinished c, auditScan scenario node (.ofText .platform text) =
        .done ((overLog (remarks scenario node) es).flatten ++ unfinished
            ++ exceptionFindings node "log" judgeReconnected (es.filter (·.isException)))
          c (some (finishedAttempts scenario es)) ∧
      Accounted scenario node es unfinished ∧
      ∀ number : Nat, .info s!"Node {node} finished reconnect {number}" ∉
        (auditScan scenario node (.ofText .platform text)).findings := by
  intro es
  have htimed : ∀ e ∈ es, e.marker = .reconnectStart ∨ e.marker = .reconnectFinished →
      e.timestamp.isSome = true := by
    rintro e he (hm | hm) <;>
      exact isSome_timestamp he (by simp [hm]) (by simp [hm]) (by simp [hm])
  obtain ⟨c, hscan⟩ := auditScan_ofText scenario node text
  refine ⟨_, c, hscan, accounted scenario node htimed, fun number hmem => ?_⟩
  rw [hscan, Audit.findings_done, List.mem_append, List.mem_append] at hmem
  rcases hmem with (hremark | hend) | hexception
  · obtain ⟨fs, hfs, hmem⟩ := List.mem_flatten.1 hremark
    obtain ⟨before, e, after, hsplit, rfl⟩ := mem_overLog hfs
    have hes : es = before ++ e :: after := hsplit
    refine untimed_notMem_step node (follow_knows scenario node before) ?_ ?_ number hmem
    · rintro start ⟨older, during, rfl, hm, -⟩
      exact htimed start (by rw [hes]; simp) (.inl hm)
    · exact fun hm => htimed e (by rw [hes]; simp) (.inr hm)
  · unfold unfinishedFindings at hend
    split at hend <;> simp at hend
  · exact untimed_notMem_exceptionFindings node number _ _ hexception

end RunAudit.Check.Reconnection
