import Mathlib.Data.List.Basic
import RunAudit.Proofs.Policies

/-!
# When a restart is valid

The check of a restart picks the entries with rounds out of one pass over a log, and drops those
without a number from the rounds that it compares. Here what it accepts is said of the whole log:
what it freezes, what it loads, and its exceptions, each of them in order and apart from the others.

* `Expected`: exceptions that are expected where nodes go down.
* `Restarted`: what the log of a node that was frozen and restarted must be like.
* `restarted_iff`: the same in terms of the rounds that the check compares.
* `forall_logs_congr`: conditions on logs that depend on some account of a log alone.
* `restart_verdict`: when the report on a restart is valid, however the entries are interleaved.
-/

namespace RunAudit.Check

open Log

/-- Exceptions that are expected where nodes go down and come back. -/
def Expected (es : List Entry) : Prop :=
  ∀ e ∈ es, e.isException = true → e.marker = .socketException ∨
    e.marker = .testingExceptionsAcceptable ∨ e.marker = .deleteQueueTooBig

instance (es : List Entry) : Decidable (Expected es) := List.decidableBAll _ es

theorem judgeRestart_ne_error (e : Entry) : judgeRestart e ≠ .error ↔
    e.marker = .socketException ∨ e.marker = .testingExceptionsAcceptable ∨
      e.marker = .deleteQueueTooBig := by
  unfold judgeRestart
  cases e.marker <;> simp

/-- What is said of the exceptions of a log that has been read to its end. -/
theorem faultless_expected {node : Nat} {es : List Entry} :
    Faultless (exceptionFindings node "log" judgeRestart (es.filter (·.isException))) ↔
      Expected es := by
  rw [faultless_exceptionFindings]
  simp only [judgeRestart_ne_error, List.mem_filter, and_imp, Expected]

/-- **Conditions on the logs of all nodes** carry over to other nodes whose logs give the same
account, if it is the account that decides. -/
theorem forall_logs_congr {β : Type} {account : List Entry → β} {P : List Entry → Prop}
    (hP : ∀ es es', account es = account es' → (P es ↔ P es')) {nodes nodes' : List Node}
    (h : nodes.map (·.entries?.map account) = nodes'.map (·.entries?.map account)) :
    (∀ n ∈ nodes, ∃ es, n.entries? = some es ∧ P es) ↔
      ∀ n ∈ nodes', ∃ es, n.entries? = some es ∧ P es := by
  -- both say that each account is that of some log with the condition
  have haccount : ∀ ns : List Node, (∀ n ∈ ns, ∃ es, n.entries? = some es ∧ P es) ↔
      ∀ a ∈ ns.map (·.entries?.map account), ∃ es, a = some (account es) ∧ P es := by
    intro ns
    rw [List.forall_mem_map]
    refine forall_congr' fun n => forall_congr' fun _ => ?_
    constructor
    · rintro ⟨es, he, hp⟩
      exact ⟨es, by rw [he]; rfl, hp⟩
    · rintro ⟨es, ha, hp⟩
      obtain ⟨es', he, ha⟩ := Option.map_eq_some_iff.1 ha
      exact ⟨es', he, (hP es' es ha).2 hp⟩
  rw [haccount, haccount, h]

/-- Nodes with nothing but their logs. -/
def nodesLogging (texts : List String) : List Node :=
  texts.map fun text => { log := some (.ofText .platform text) }

theorem nodesLogging_fresh (texts : List String) : ∀ n ∈ nodesLogging texts, n.Fresh := by
  refine List.forall_mem_map.2 fun text _ c hc => ?_
  cases hc
  exact ⟨_, rfl⟩

namespace Restart

/-- The entries with one marker, in the order of the log. -/
def carrying (marker : Marker) (es : List Entry) : List Entry := es.filter (·.marker = marker)

/-- **What the log of a node that was frozen and restarted must be like.** -/
structure Restarted (es : List Entry) : Prop where
  frozen : ∃ e ∈ es, e.marker = .freezeStateSaved
  numbered : ∀ e ∈ es, e.marker = .freezeStateSaved ∨ e.marker = .loadRestart →
    ∃ round, e.trailingNumber? = some round
  restored : (carrying .freezeStateSaved es).map (·.trailingNumber?) =
    (carrying .loadRestart es).map (·.trailingNumber?)
  expected : Expected es

/-- What a restart goes by: the messages of the entries that tell of frozen and of loaded states,
and the markers of the exceptions. -/
def account (es : List Entry) : List String × List String × List Marker :=
  ((carrying .freezeStateSaved es).map (·.text), (carrying .loadRestart es).map (·.text),
   (es.filter (·.isException)).map (·.marker))

variable {node : Nat} {es : List Entry} {lines : List Line} {marker : Marker}

/-- Whether a log has an entry with a marker shows in the list of these entries. -/
theorem exists_carrying : carrying marker es ≠ [] ↔ ∃ e ∈ es, e.marker = marker := by
  rw [carrying, Ne, List.filter_eq_nil_iff]
  simp

/-- What all entries with a marker have to be like shows in the list of their messages. -/
theorem forall_carrying {P : String → Prop} :
    (∀ text ∈ (carrying marker es).map (·.text), P text) ↔
      ∀ e ∈ es, e.marker = marker → P e.text := by
  rw [List.forall_mem_map]
  simp only [carrying, List.mem_filter, decide_eq_true_eq, and_imp]

theorem isRound_iff : isRound marker = true ↔ marker = .freezeStateSaved ∨ marker = .loadRestart := by
  cases marker <;> simp [isRound]

/-- Nothing is left out by looking at the entries with rounds only. -/
theorem roundsOf_filter (marker : Marker) (h : isRound marker = true) (es : List Entry) :
    roundsOf marker (es.filter fun e => isRound e.marker) = roundsOf marker es := by
  unfold roundsOf
  rw [List.filter_filter]
  congr 1
  refine List.filter_congr fun e _ => ?_
  by_cases hm : e.marker = marker <;> simp [hm, h]

theorem faultless_compareFindings (frozen loaded : List Nat) :
    Faultless (compareFindings node frozen loaded) ↔ frozen ≠ [] ∧ frozen = loaded := by
  unfold compareFindings
  split_ifs with hempty hne
  · have hnil : frozen = [] := List.isEmpty_iff.1 hempty
    exact iff_of_false (not_faultless_error _ _) fun h => h.1 hnil
  · exact iff_of_false (not_faultless_error _ _) fun h => hne h.2
  · have hsome : frozen ≠ [] := fun hnil => hempty (List.isEmpty_iff.2 hnil)
    have hsame : frozen = loaded := not_not.1 hne
    exact iff_of_true faultless_nil ⟨hsome, hsame⟩

theorem faultless_roundFindings (e : Entry) :
    Faultless (roundFindings node e) ↔ ∃ round, e.trailingNumber? = some round := by
  unfold roundFindings
  rw [← Option.isSome_iff_exists]
  split_ifs with h <;> simp [h]

/-- Where all entries with a marker have a number, their rounds are these numbers. -/
theorem map_some_roundsOf
    (h : ∀ e ∈ es, e.marker = marker → ∃ round, e.trailingNumber? = some round) :
    (roundsOf marker es).map some = (carrying marker es).map (·.trailingNumber?) := by
  have hall : ∀ e ∈ carrying marker es, ∃ round, e.trailingNumber? = some round := by
    intro e he
    obtain ⟨hmem, hm⟩ := List.mem_filter.1 he
    exact h e hmem (of_decide_eq_true hm)
  have hrounds : roundsOf marker es = (carrying marker es).filterMap (·.trailingNumber?) := rfl
  rw [hrounds]
  clear hrounds h
  generalize carrying marker es = found at hall ⊢
  induction found with
  | nil => rfl
  | cons e later ih =>
    obtain ⟨⟨round, hr⟩, hlater⟩ := List.forall_mem_cons.1 hall
    rw [List.filterMap_cons, hr, List.map_cons, ih hlater, List.map_cons, hr]

/-- Whether there are any rounds shows in the entries, if all of them are numbered. -/
theorem roundsOf_ne_nil
    (h : ∀ e ∈ es, e.marker = marker → ∃ round, e.trailingNumber? = some round) :
    roundsOf marker es ≠ [] ↔ ∃ e ∈ es, e.marker = marker := by
  have hrounds := map_some_roundsOf h
  rw [← exists_carrying, Ne, Ne, ← List.map_eq_nil_iff (f := some), hrounds, List.map_eq_nil_iff]

/-- Whether rounds agree shows in the numbers of the entries, if all of them are numbered. -/
theorem roundsOf_eq_iff {first second : Marker}
    (hfirst : ∀ e ∈ es, e.marker = first → ∃ round, e.trailingNumber? = some round)
    (hsecond : ∀ e ∈ es, e.marker = second → ∃ round, e.trailingNumber? = some round) :
    roundsOf first es = roundsOf second es ↔
      (carrying first es).map (·.trailingNumber?) =
        (carrying second es).map (·.trailingNumber?) := by
  rw [← map_some_roundsOf hfirst, ← map_some_roundsOf hsecond]
  exact (List.map_inj_right fun _ _ => Option.some.inj).symm

/-- **What the check compares** amounts to what the log must be like. -/
theorem restarted_iff : Restarted es ↔
    (∀ e ∈ es, isRound e.marker = true → ∃ round, e.trailingNumber? = some round) ∧
      (roundsOf .freezeStateSaved es ≠ [] ∧
        roundsOf .freezeStateSaved es = roundsOf .loadRestart es) ∧ Expected es := by
  simp only [isRound_iff]
  have hrounds : (∀ e ∈ es, e.marker = .freezeStateSaved ∨ e.marker = .loadRestart →
      ∃ round, e.trailingNumber? = some round) →
        (roundsOf .freezeStateSaved es ≠ [] ↔ ∃ e ∈ es, e.marker = .freezeStateSaved) ∧
        (roundsOf .freezeStateSaved es = roundsOf .loadRestart es ↔
          (carrying .freezeStateSaved es).map (·.trailingNumber?) =
            (carrying .loadRestart es).map (·.trailingNumber?)) := by
    intro hn
    have hf : ∀ e ∈ es, e.marker = .freezeStateSaved → ∃ round, e.trailingNumber? = some round :=
      fun e he hm => hn e he (.inl hm)
    have hl : ∀ e ∈ es, e.marker = .loadRestart → ∃ round, e.trailingNumber? = some round :=
      fun e he hm => hn e he (.inr hm)
    exact ⟨roundsOf_ne_nil hf, roundsOf_eq_iff hf hl⟩
  constructor
  · intro h
    obtain ⟨hne, heq⟩ := hrounds h.numbered
    exact ⟨h.numbered, ⟨hne.2 h.frozen, heq.2 h.restored⟩, h.expected⟩
  · rintro ⟨hn, hcompared, hx⟩
    obtain ⟨hne, heq⟩ := hrounds hn
    exact ⟨hne.1 hcompared.1, hn, heq.1 hcompared.2, hx⟩

/-- The log of one node. -/
theorem passes_auditLog (node : Nat) (h : Decodable lines) :
    (auditLog node { lines }).Passes ↔ Restarted (entriesIn lines) := by
  unfold auditLog
  rcases sweep_cases isRound (List.flatMap (roundFindings node)) lines with
    ⟨-, c, hs, hx⟩ | ⟨hn, -⟩
  · rw [hs, Audit.passes_conclude, restarted_iff]
    simp only [Audit.result_done, Audit.findings_done, Audit.inputs_done, Except.ok.injEq,
      exists_eq_left', faultless_append, faultless_flatMap, faultless_roundFindings,
      faultless_compareFindings, List.mem_filter, and_imp, hx, faultless_expected,
      roundsOf_filter .freezeStateSaved rfl, roundsOf_filter .loadRestart rfl]
  · exact absurd h hn

/-- **The account of a log decides** whether the node was restarted as it must be. -/
theorem restarted_iff_account : Restarted es ↔
    (account es).1 ≠ [] ∧
      (∀ text ∈ (account es).1, (Decimal.trailing? text).isSome = true) ∧
      (∀ text ∈ (account es).2.1, (Decimal.trailing? text).isSome = true) ∧
      (account es).1.map Decimal.trailing? = (account es).2.1.map Decimal.trailing? ∧
      ∀ marker ∈ (account es).2.2, marker = .socketException ∨
        marker = .testingExceptionsAcceptable ∨ marker = .deleteQueueTooBig := by
  have hnumbers : ∀ marker, ((carrying marker es).map (·.text)).map Decimal.trailing? =
      (carrying marker es).map (·.trailingNumber?) := by
    intro marker
    rw [List.map_map]
    rfl
  have hexpected : (∀ marker ∈ (es.filter (·.isException)).map (·.marker),
      marker = .socketException ∨ marker = .testingExceptionsAcceptable ∨
        marker = .deleteQueueTooBig) ↔ Expected es := by
    rw [List.forall_mem_map]
    simp only [List.mem_filter, and_imp, Expected]
  simp only [account, Ne, List.map_eq_nil_iff, forall_carrying, hnumbers, hexpected,
    Option.isSome_iff_exists]
  rw [← Ne, exists_carrying]
  constructor
  · intro h
    exact ⟨h.frozen, fun e he hm => h.numbered e he (.inl hm),
      fun e he hm => h.numbered e he (.inr hm), h.restored, h.expected⟩
  · rintro ⟨hfrozen, hf, hl, hrestored, hexpected⟩
    exact ⟨hfrozen, fun e he hm => hm.elim (hf e he) (hl e he), hrestored, hexpected⟩

instance (es : List Entry) : Decidable (Restarted es) := decidable_of_iff' _ restarted_iff_account

/-- How the entries of a log are interleaved does not matter. -/
theorem restarted_congr {es es' : List Entry} (h : account es = account es') :
    Restarted es ↔ Restarted es' := by
  rw [restarted_iff_account, h, ← restarted_iff_account]

/-- **When the report on a restart is valid**, and that it depends on no more than the account of
each log. -/
theorem restart_verdict (nodes : List Node) (h : ∀ n ∈ nodes, n.Fresh) :
    ((Validator.restart nodes).Passes ↔
        ∀ n ∈ nodes, ∃ es, n.entries? = some es ∧ Restarted es) ∧
      ∀ nodes' : List Node, (∀ n ∈ nodes', n.Fresh) →
        nodes.map (·.entries?.map account) = nodes'.map (·.entries?.map account) →
          ((Validator.restart nodes).Passes ↔ (Validator.restart nodes').Passes) := by
  have hverdict : ∀ ns : List Node, (∀ n ∈ ns, n.Fresh) → ((Validator.restart ns).Passes ↔
      ∀ n ∈ ns, ∃ es, n.entries? = some es ∧ Restarted es) := by
    intro ns hns
    have hlogs : (Audit.each (Node.auditLog (Validator.name (.restart ns)) () auditLog) ns).Passes ↔
        ∀ n ∈ ns, ∃ es, n.entries? = some es ∧ Restarted es :=
      passes_each_fresh () hns fun place lines hd => passes_auditLog place hd
    rw [Validator.passes_iff, Validator.audit, Audit.passes_within, audit, Audit.passes_conclude,
      ← hlogs]
    simp [Audit.Passes]
  refine ⟨hverdict nodes h, fun nodes' h' haccount => ?_⟩
  rw [hverdict nodes h, hverdict nodes' h']
  exact forall_logs_congr (fun _ _ => restarted_congr) haccount

/-- A log with two freezes at the same round, each of them loaded before the next. -/
def alternatingLog : String :=
  "2024-03-01 10:00:00 FREEZE_STATE_SAVED round 7\n" ++
  "2024-03-01 10:00:00 LOAD_RESTART round 7\n" ++
  "2024-03-01 10:00:00 SOCKET_EXCEPTIONS\n" ++
  "2024-03-01 10:00:00 FREEZE_STATE_SAVED round 7\n" ++
  "2024-03-01 10:00:00 LOAD_RESTART round 7"

/-- A log with the same entries, all loaded states first. -/
def sortedLog : String :=
  "2024-03-01 10:00:00 SOCKET_EXCEPTIONS\n" ++
  "2024-03-01 10:00:00 LOAD_RESTART round 7\n" ++
  "2024-03-01 10:00:00 LOAD_RESTART round 7\n" ++
  "2024-03-01 10:00:00 FREEZE_STATE_SAVED round 7\n" ++
  "2024-03-01 10:00:00 FREEZE_STATE_SAVED round 7"

theorem restart_verdict_sortedLog :
    (∀ n ∈ nodesLogging [alternatingLog], n.Fresh) ∧ (∀ n ∈ nodesLogging [sortedLog], n.Fresh) ∧
      (Validator.restart (nodesLogging [alternatingLog])).Passes ∧
      (Validator.restart (nodesLogging [sortedLog])).Passes := by
  obtain ⟨hverdict, hcongr⟩ := restart_verdict _ (nodesLogging_fresh [alternatingLog])
  have haccount : (nodesLogging [alternatingLog]).map (·.entries?.map account) =
      (nodesLogging [sortedLog]).map (·.entries?.map account) := by decide +kernel
  have hrestarted : ∀ text ∈ [alternatingLog],
      Restarted (entriesIn (linesOf .platform (utf8 text))) := by decide +kernel
  have hpass : (Validator.restart (nodesLogging [alternatingLog])).Passes :=
    hverdict.2 (List.forall_mem_map.2 fun text ht => ⟨_, rfl, hrestarted text ht⟩)
  exact ⟨nodesLogging_fresh _, nodesLogging_fresh _, hpass,
    (hcongr _ (nodesLogging_fresh _) haccount).1 hpass⟩

end Restart

end RunAudit.Check
