import Mathlib.Data.List.Basic
import RunAudit.Proofs.Restarts

/-!
# When a recovery is valid

The check of a recovery goes through a log in three steps that share one cursor: to the first saved
state, from there to the end of the test application, and on to the end of the log. Here what it
accepts is said of the whole log and of all nodes together.

* `Recovered`: what the log of a node that recovered its state must be like.
* `recovered_cons_saved`, `recovered_cons_other`: the same along the log, entry by entry.
* `recovered_account`: saved states behind the first one do not matter.
* `auditLog_of_decodable`: what the check of one log comes to, whichever step finds nothing.
* `agreementFindings_cases`, `faultless_agreementFindings`: what is said of the rounds, and when the
  nodes are said to agree.
* `recovery_verdict`: when the report on a recovery is valid.
-/

namespace RunAudit.Check.Recovery

open Log

/-- **What the log of a node that recovered its state must be like.** The first state that it saved
has the round as its number, and the test application finished after that. -/
def Recovered (round : Nat) (es : List Entry) : Prop :=
  (∃ before saved after, es = before ++ saved :: after ∧
    (∀ e ∈ before, e.marker ≠ .stateSaved) ∧ saved.marker = .stateSaved ∧
    saved.trailingNumber? = some round ∧ ∃ e ∈ after, e.marker = .testAppFinish) ∧ Expected es

/-- The number of the first saved state in a log. -/
def recoveredRound? (es : List Entry) : Option Nat :=
  (es.find? (·.marker = .stateSaved)).bind (·.trailingNumber?)

/-- A log without the saved states behind the first one. -/
def withoutLaterSaved : List Entry → List Entry
  | [] => []
  | e :: es =>
    if e.marker = .stateSaved then e :: es.filter (·.marker ≠ .stateSaved)
    else e :: withoutLaterSaved es

/-- The marker and the message of an entry, and nothing else. -/
def bare (e : Entry) : Entry := { timestamp := none, marker := e.marker, text := e.text }

/-- What a recovery goes by: the markers and messages of a log without the saved states behind the
first one. -/
def account (es : List Entry) : List Entry := (withoutLaterSaved es).map bare

variable {node round : Nat} {e : Entry} {es : List Entry} {lines : List Line}

theorem expected_cons : Expected (e :: es) ↔
    (e.isException = true → judgeRestart e ≠ .error) ∧ Expected es := by
  rw [judgeRestart_ne_error]
  exact List.forall_mem_cons

/-- A saved state is no exception. -/
theorem expected_cons_saved (h : e.marker = .stateSaved) : Expected (e :: es) ↔ Expected es := by
  have hx : ¬ e.isException = true := by
    unfold Entry.isException
    rw [h]
    decide
  rw [expected_cons]
  exact and_iff_right fun hex => absurd hex hx

/-- A log that begins with a saved state. -/
theorem recovered_cons_saved (h : e.marker = .stateSaved) : Recovered round (e :: es) ↔
    e.trailingNumber? = some round ∧ (∃ f ∈ es, f.marker = .testAppFinish) ∧ Expected es := by
  unfold Recovered
  rw [expected_cons_saved h, ← and_assoc]
  refine and_congr_left fun _ => ⟨?_, fun ⟨hn, hfin⟩ => ⟨[], e, es, rfl, by simp, h, hn, hfin⟩⟩
  rintro ⟨before, saved, after, hes, hb, -, hn, hfin⟩
  cases before with
  | nil =>
    cases hes
    exact ⟨hn, hfin⟩
  | cons b before =>
    cases hes
    exact absurd h (hb _ List.mem_cons_self)

/-- A log that begins with anything else. -/
theorem recovered_cons_other (h : e.marker ≠ .stateSaved) : Recovered round (e :: es) ↔
    (e.isException = true → judgeRestart e ≠ .error) ∧ Recovered round es := by
  unfold Recovered
  rw [expected_cons, and_left_comm]
  refine and_congr_right fun _ => and_congr_left fun _ => ⟨?_, ?_⟩
  · rintro ⟨before, saved, after, hes, hb, hs, hrest⟩
    cases before with
    | nil =>
      cases hes
      exact absurd hs h
    | cons b before =>
      cases hes
      exact ⟨before, saved, after, rfl, fun x hx => hb x (List.mem_cons_of_mem _ hx), hs, hrest⟩
  · rintro ⟨before, saved, after, rfl, hb, hrest⟩
    exact ⟨e :: before, saved, after, rfl, List.forall_mem_cons.2 ⟨h, hb⟩, hrest⟩

theorem not_recovered_nil : ¬ Recovered round [] := by
  rintro ⟨⟨before, saved, after, hes, -⟩, -⟩
  exact List.append_ne_nil_of_right_ne_nil before (List.cons_ne_nil saved after) hes.symm

/-- Whether a log is like that of a node that recovered its state, found out entry by entry. -/
instance decidableRecovered (round : Nat) : (es : List Entry) → Decidable (Recovered round es)
  | [] => isFalse not_recovered_nil
  | e :: es =>
    if h : e.marker = .stateSaved then decidable_of_iff' _ (recovered_cons_saved h)
    else
      have := decidableRecovered round es
      decidable_of_iff' _ (recovered_cons_other h)

/-- A log at its first saved state. -/
theorem recovered_split {before after : List Entry} {saved : Entry}
    (hb : ∀ e ∈ before, e.marker ≠ .stateSaved) (hs : saved.marker = .stateSaved) :
    Recovered round (before ++ saved :: after) ↔ saved.trailingNumber? = some round ∧
      (∃ e ∈ after, e.marker = .testAppFinish) ∧ Expected (before ++ saved :: after) := by
  induction before with
  | nil => rw [List.nil_append, recovered_cons_saved hs, expected_cons_saved hs]
  | cons b before ih =>
    obtain ⟨hb, hbefore⟩ := List.forall_mem_cons.1 hb
    rw [List.cons_append, recovered_cons_other hb, ih hbefore, expected_cons]
    exact ⟨fun ⟨hx, hn, hfin, hrest⟩ => ⟨hn, hfin, hx, hrest⟩,
      fun ⟨hn, hfin, hx, hrest⟩ => ⟨hx, hn, hfin, hrest⟩⟩

theorem account_cons_saved (h : e.marker = .stateSaved) :
    account (e :: es) = bare e :: (es.filter (·.marker ≠ .stateSaved)).map bare := by
  unfold account
  rw [withoutLaterSaved, if_pos h, List.map_cons]

theorem account_cons_other (h : e.marker ≠ .stateSaved) :
    account (e :: es) = bare e :: account es := by
  unfold account
  rw [withoutLaterSaved, if_neg h, List.map_cons]

/-- Leaving out saved states, and all of an entry but its marker and message, is no loss where it is
only asked for markers that saved states do not have. -/
theorem forall_bare {P : Marker → Prop} (h : P .stateSaved) :
    (∀ f ∈ (es.filter (·.marker ≠ .stateSaved)).map bare, P f.marker) ↔ ∀ f ∈ es, P f.marker := by
  simp only [List.forall_mem_map, List.mem_filter, decide_eq_true_eq, and_imp]
  refine forall_congr' fun f => forall_congr' fun _ => ⟨fun hf => ?_, fun hf _ => hf⟩
  by_cases hs : f.marker = .stateSaved
  · rw [hs]
    exact h
  · exact hf hs

/-- **Saved states behind the first one do not matter.** -/
theorem recovered_account (es : List Entry) : Recovered round (account es) ↔ Recovered round es := by
  induction es with
  | nil => rfl
  | cons e es ih =>
    by_cases h : e.marker = .stateSaved
    · have hfin : (∃ f ∈ (es.filter (·.marker ≠ .stateSaved)).map bare,
          f.marker = .testAppFinish) ↔ ∃ f ∈ es, f.marker = .testAppFinish := by
        have hnot := @forall_bare es (· ≠ .testAppFinish) (by decide)
        exact not_iff_not.1 (by simpa only [not_exists, not_and] using hnot)
      have hx : Expected ((es.filter (·.marker ≠ .stateSaved)).map bare) ↔ Expected es :=
        forall_bare (P := fun m => m.isException = true → m = .socketException ∨
          m = .testingExceptionsAcceptable ∨ m = .deleteQueueTooBig) (by decide)
      have hbare : (bare e).marker = .stateSaved := h
      rw [account_cons_saved h, recovered_cons_saved hbare, recovered_cons_saved h, hfin, hx]
      rfl
    · have hbare : (bare e).marker ≠ .stateSaved := h
      rw [account_cons_other h, recovered_cons_other hbare, recovered_cons_other h, ih]
      rfl

theorem recovered_congr {es es' : List Entry} (h : account es = account es') :
    Recovered round es ↔ Recovered round es' := by
  rw [← recovered_account es, h, recovered_account]

/-- The round that a node recovered is the number of the first state that it saved. -/
theorem Recovered.round_eq (h : Recovered round es) : recoveredRound? es = some round := by
  obtain ⟨⟨before, saved, after, rfl, hb, hs, hn, -⟩, -⟩ := h
  have hfind : (before ++ saved :: after).find? (·.marker = .stateSaved) = some saved :=
    List.find?_eq_some_iff_append.2 ⟨by simpa using hs, before, after, rfl, by simpa using hb⟩
  rw [recoveredRound?, hfind, Option.bind_some, hn]

theorem faultless_savedFindings (saved : Option Entry) :
    Faultless (savedFindings node saved) ↔ ∃ round, saved.bind (·.trailingNumber?) = some round := by
  cases saved with
  | none => simp [savedFindings]
  | some e =>
    rw [Option.bind_some, ← Option.isSome_iff_exists]
    unfold savedFindings
    dsimp only
    split_ifs with h <;> simp [h]

theorem faultless_finishFindings (finished : Option Entry) :
    Faultless (finishFindings node finished) ↔ finished.isSome = true := by
  unfold finishFindings
  split_ifs with h <;> simp [h]

/-- What is said of a log: of the first state saved in it, of the end of the test application behind
that, and of its exceptions. -/
def logFindings (node : Nat) (saved finished : Option Entry) (es : List Entry) : List Finding :=
  savedFindings node saved ++ (finishFindings node finished ++
    exceptionFindings node "log" judgeRestart (es.filter (·.isException)))

/-- **What the three steps come to**, each from where the one before it ended. -/
theorem auditLog_steps (node : Nat) (h : Decodable lines) {saved : Option Entry} {k : Nat}
    (hsaved : (Call.find (· == .stateSaved)).move (entriesIn lines) 0 = (saved, k)) :
    ∃ finished c, auditLog node { lines } =
        .done (logFindings node saved finished (entriesIn lines)) c
          (saved.bind (·.trailingNumber?)) ∧
      (Faultless (logFindings node saved finished (entriesIn lines)) ↔
        (∃ round, saved.bind (·.trailingNumber?) = some round) ∧
          (∃ e ∈ (entriesIn lines).drop k, e.marker = .testAppFinish) ∧
          Expected (entriesIn lines)) := by
  have hstart := Cursor.follows_start lines
  rw [inspected_of_decodable h] at hstart
  obtain ⟨c₁, hs₁, hf₁, hc₁⟩ :=
    seek_of_clear (· == .stateSaved) hstart ((Cursor.clear_start_iff lines).2 h)
  rw [hsaved] at hs₁ hf₁
  obtain ⟨c₂, hs₂, hf₂, hc₂⟩ := seek_of_clear (· == .testAppFinish) hf₁ hc₁
  have hfinished := Cursor.isSome_move_find (· == .testAppFinish) (entriesIn lines) k
  obtain ⟨c₃, hs₃, hx⟩ := finish_of_clear hf₂ hc₂
  generalize ((Call.find (· == .testAppFinish)).move (entriesIn lines) k).1 = finished
    at hs₂ hfinished
  refine ⟨finished, c₃, ?_, ?_⟩
  · simp only [auditLog, hs₁, hs₂, hs₃, Audit.andThen_done, hx]
    rfl
  · rw [logFindings, faultless_append, faultless_append, faultless_savedFindings,
      faultless_finishFindings, faultless_expected, hfinished]
    simp only [beq_iff_eq]

/-- **What the check of one log comes to**: the number of the first saved state, and nothing wrong
exactly if the log is like that of a node that recovered its state. -/
theorem auditLog_of_decodable (node : Nat) (h : Decodable lines) :
    ∃ finished c, auditLog node { lines } =
        .done (logFindings node ((entriesIn lines).find? (·.marker = .stateSaved)) finished
          (entriesIn lines)) c (recoveredRound? (entriesIn lines)) ∧
      (Faultless (logFindings node ((entriesIn lines).find? (·.marker = .stateSaved)) finished
          (entriesIn lines)) ↔ ∃ round, Recovered round (entriesIn lines)) := by
  cases hfind : (entriesIn lines).find? (·.marker = .stateSaved) with
  | none =>
    -- whatever the second search finds, the first one has not found anything
    have hmiss : ((Call.find (· == .stateSaved)).move (entriesIn lines) 0).1 = none := by
      rw [← Option.not_isSome_iff_eq_none, Cursor.isSome_move_find]
      simpa using List.find?_eq_none.1 hfind
    have hround : recoveredRound? (entriesIn lines) = none := by
      rw [recoveredRound?, hfind, Option.bind_none]
    obtain ⟨finished, c, ha, hf⟩ := auditLog_steps node h (Prod.ext hmiss rfl)
    refine ⟨finished, c, by rw [ha, hround, Option.bind_none],
      hf.trans (iff_of_false (by simp) ?_)⟩
    rintro ⟨round, hr⟩
    rw [hr.round_eq] at hround
    cases hround
  | some saved =>
    obtain ⟨hs, before, after, hes, hb⟩ := List.find?_eq_some_iff_append.1 hfind
    have hhit := @Cursor.move_find_split _ 0 (· == .stateSaved) _ _ _ hes
      (by simpa using hb) (by simpa using hs)
    have hround : recoveredRound? (entriesIn lines) = saved.trailingNumber? := by
      rw [recoveredRound?, hfind, Option.bind_some]
    have hafter : (entriesIn lines).drop (0 + before.length + 1) = after := by
      rw [hes, Nat.zero_add, List.drop_length_add_append]
      rfl
    obtain ⟨finished, c, ha, hf⟩ := auditLog_steps node h hhit
    refine ⟨finished, c, by rw [ha, hround, Option.bind_some], ?_⟩
    rw [hf, hafter, Option.bind_some, hes]
    simp only [recovered_split (by simpa using hb) (of_decide_eq_true hs), exists_and_right]

/-! ### All nodes -/

/-- The rounds that some node recovered. -/
theorem mem_keys_nodesByRound {rounds : List (Option Nat)} {round : Nat} :
    round ∈ (nodesByRound rounds).keys ↔ some round ∈ rounds := by
  have hempty : round ∉ (Keyed.empty : Keyed Nat (List Nat)).keys := List.not_mem_nil
  refine (Keyed.mem_keys_foldl (fun found k => ∃ node, found = some (k, node))
    (fun m found k => ?_) _ _ _).trans ?_
  · rcases found with _ | ⟨round, node⟩
    · simp
    · simp [Keyed.mem_keys_alter, eq_comm]
  · rw [or_iff_left hempty]
    constructor
    · rintro ⟨found, hfound, node, rfl⟩
      obtain ⟨i, hi, heq⟩ := List.mem_mapIdx.1 hfound
      obtain ⟨round', hr, hpair⟩ := Option.map_eq_some_iff.1 heq
      cases hpair
      exact hr ▸ List.getElem_mem hi
    · intro hmem
      obtain ⟨i, hi, hr⟩ := List.getElem_of_mem hmem
      exact ⟨some (round, i), List.mem_mapIdx.2 ⟨i, hi, by rw [hr]; rfl⟩, i, rfl⟩

/-- **What is said of the rounds** if there are none, one only, or several. -/
theorem agreementFindings_cases (rounds : List (Option Nat)) :
    (agreementFindings rounds = [] ∧ ∀ k, some k ∉ rounds) ∨
    (∃ round : Nat, agreementFindings rounds = [.info s!"All nodes recovered round {round}"] ∧
      ∀ k, some k ∈ rounds ↔ k = round) ∨
    ∃ message a b, agreementFindings rounds = [.error message] ∧
      some a ∈ rounds ∧ some b ∈ rounds ∧ a ≠ b := by
  simp only [← mem_keys_nodesByRound]
  have hascending := (nodesByRound rounds).ascending
  unfold agreementFindings Keyed.keys
  generalize (nodesByRound rounds).entries = entries at hascending
  rcases entries with _ | ⟨⟨first, _⟩, _ | ⟨⟨second, _⟩, rest⟩⟩
  · exact .inl ⟨rfl, by simp⟩
  · exact .inr (.inl ⟨first, rfl, by simp⟩)
  · -- keys are ascending, so that the first two differ
    have hlt : first < second := (List.pairwise_cons.1 hascending).1 _ List.mem_cons_self
    exact .inr (.inr ⟨_, first, second, rfl, by simp, by simp, Nat.ne_of_lt hlt⟩)

/-- **When the nodes are said to agree**: no two of them recovered different rounds. -/
theorem faultless_agreementFindings {rounds : List (Option Nat)} :
    Faultless (agreementFindings rounds) ↔ ∀ a b, some a ∈ rounds → some b ∈ rounds → a = b := by
  rcases agreementFindings_cases rounds with
    ⟨hsaid, hnone⟩ | ⟨round, hsaid, hone⟩ | ⟨message, a, b, hsaid, ha, hb, hne⟩
  · rw [hsaid]
    exact iff_of_true faultless_nil fun a _ ha => absurd ha (hnone a)
  · rw [hsaid]
    exact iff_of_true rfl fun a b ha hb => ((hone a).1 ha).trans ((hone b).1 hb).symm
  · rw [hsaid]
    exact iff_of_false (not_faultless_error _ _) fun hall => hne (hall a b ha hb)

/-- The round that a node recovered, if it has a log. -/
def nodeRound? (n : Node) : Option Nat := n.entries?.bind recoveredRound?

theorem result_auditLog {n : Node} (h : n.Fresh) (validator : String) (place : Nat) :
    (n.auditLog validator none auditLog place).result = .ok (nodeRound? n) := by
  unfold nodeRound?
  rcases auditLog_cases h validator none auditLog place with ⟨he, ha⟩ | ⟨lines, hd, he, ha⟩
  · rw [ha, he]
    rfl
  · obtain ⟨finished, c, hlog, -⟩ := auditLog_of_decodable place hd
    rw [ha, he, hlog]
    rfl

theorem passes_auditLog (node : Nat) (h : Decodable lines) :
    (auditLog node { lines }).Passes ↔ ∃ round, Recovered round (entriesIn lines) := by
  obtain ⟨finished, c, ha, hf⟩ := auditLog_of_decodable node h
  rw [ha, Audit.passes_done, hf]

/-- The nodes recovered one round: each of them some round, and no two of them different ones. -/
theorem exists_round_iff {nodes : List Node} :
    (∃ round, ∀ n ∈ nodes, ∃ es, n.entries? = some es ∧ Recovered round es) ↔
      (∀ n ∈ nodes, ∃ es, n.entries? = some es ∧ ∃ round, Recovered round es) ∧
        ∀ a b, some a ∈ nodes.map nodeRound? → some b ∈ nodes.map nodeRound? → a = b := by
  have hround : ∀ {n : Node} {es round}, n.entries? = some es → Recovered round es →
      nodeRound? n = some round := by
    intro n es round he hr
    rw [nodeRound?, he, Option.bind_some, hr.round_eq]
  constructor
  · rintro ⟨round, hall⟩
    refine ⟨fun n hn => ?_, ?_⟩
    · obtain ⟨es, he, hr⟩ := hall n hn
      exact ⟨es, he, round, hr⟩
    · have honly : ∀ a, some a ∈ nodes.map nodeRound? → a = round := by
        intro a ha
        obtain ⟨n, hn, ha⟩ := List.mem_map.1 ha
        obtain ⟨es, he, hr⟩ := hall n hn
        rw [hround he hr] at ha
        exact (Option.some.inj ha).symm
      intro a b ha hb
      rw [honly a ha, honly b hb]
  · rintro ⟨hall, hagree⟩
    rcases nodes with _ | ⟨first, rest⟩
    · exact ⟨0, by simp⟩
    · obtain ⟨es, he, round, hr⟩ := hall first List.mem_cons_self
      refine ⟨round, fun n hn => ?_⟩
      obtain ⟨es', he', round', hr'⟩ := hall n hn
      have hsame : round' = round := hagree round' round
        (List.mem_map.2 ⟨n, hn, hround he' hr'⟩)
        (List.mem_map.2 ⟨first, List.mem_cons_self, hround he hr⟩)
      exact ⟨es', he', hsame ▸ hr'⟩

/-- **When the report on a recovery is valid**: all nodes recovered one round and then finished, and
their logs have no exceptions but expected ones. It does not matter what states were saved later. -/
theorem recovery_verdict (nodes : List Node) (h : ∀ n ∈ nodes, n.Fresh) :
    ((Validator.recoverState nodes).Passes ↔
        ∃ round, ∀ n ∈ nodes, ∃ es, n.entries? = some es ∧ Recovered round es) ∧
      ∀ nodes' : List Node, (∀ n ∈ nodes', n.Fresh) →
        nodes.map (·.entries?.map account) = nodes'.map (·.entries?.map account) →
          ((Validator.recoverState nodes).Passes ↔ (Validator.recoverState nodes').Passes) := by
  have hverdict : ∀ ns : List Node, (∀ n ∈ ns, n.Fresh) →
      ((Validator.recoverState ns).Passes ↔
        ∃ round, ∀ n ∈ ns, ∃ es, n.entries? = some es ∧ Recovered round es) := by
    intro ns hns
    have hresult := Audit.result_each fun place n hn =>
      result_auditLog (hns n hn) (Validator.name (.recoverState ns)) place
    have hlogs : (Audit.each (Node.auditLog (Validator.name (.recoverState ns)) none auditLog)
        ns).Passes ↔ ∀ n ∈ ns, ∃ es, n.entries? = some es ∧ ∃ round, Recovered round es :=
      passes_each_fresh none hns fun place lines hd => passes_auditLog place hd
    rw [Validator.passes_iff, Validator.audit, Audit.passes_within, audit, Audit.passes_conclude,
      exists_round_iff, ← hlogs, ← faultless_agreementFindings, Audit.Passes, hresult]
    simp only [Except.ok.injEq, exists_eq_left', exists_eq', true_and]
  refine ⟨hverdict nodes h, fun nodes' h' haccount => ?_⟩
  rw [hverdict nodes h, hverdict nodes' h']
  exact exists_congr fun round => forall_logs_congr (fun _ _ => recovered_congr) haccount

/-- The logs of two nodes that recovered round 5. -/
def recoveryLogs : List String :=
  ["2024-03-01 10:00:00 SOCKET_EXCEPTIONS\n" ++
   "2024-03-01 10:00:00 STATE_SAVED round 5\n" ++
   "2024-03-01 10:00:00 PTD_FINISH",
   "2024-03-01 10:00:00 STATE_SAVED round 5\n" ++
   "2024-03-01 10:00:00 PTD_FINISH"]

/-- The logs of the same nodes if they save other states later on. -/
def laterSavedLogs : List String :=
  ["2024-03-01 10:00:00 SOCKET_EXCEPTIONS\n" ++
   "2024-03-01 10:00:00 STATE_SAVED round 5\n" ++
   "2024-03-01 10:00:00 STATE_SAVED\n" ++
   "2024-03-01 10:00:00 PTD_FINISH",
   "2024-03-01 10:00:00 STATE_SAVED round 5\n" ++
   "2024-03-01 10:00:00 PTD_FINISH\n" ++
   "2024-03-01 10:00:00 STATE_SAVED round 6"]

theorem recovery_verdict_laterSavedLogs :
    (∀ n ∈ nodesLogging recoveryLogs, n.Fresh) ∧ (∀ n ∈ nodesLogging laterSavedLogs, n.Fresh) ∧
      (Validator.recoverState (nodesLogging recoveryLogs)).Passes ∧
      (Validator.recoverState (nodesLogging laterSavedLogs)).Passes := by
  obtain ⟨hverdict, hcongr⟩ := recovery_verdict _ (nodesLogging_fresh recoveryLogs)
  have haccount : (nodesLogging recoveryLogs).map (·.entries?.map account) =
      (nodesLogging laterSavedLogs).map (·.entries?.map account) := by decide +kernel
  have hrecovered : ∀ text ∈ recoveryLogs,
      Recovered 5 (entriesIn (linesOf .platform (utf8 text))) := by decide +kernel
  have hpass : (Validator.recoverState (nodesLogging recoveryLogs)).Passes :=
    hverdict.2 ⟨5, List.forall_mem_map.2 fun text ht => ⟨_, rfl, hrecovered text ht⟩⟩
  exact ⟨nodesLogging_fresh _, nodesLogging_fresh _, hpass,
    (hcongr _ (nodesLogging_fresh _) haccount).1 hpass⟩

end RunAudit.Check.Recovery
