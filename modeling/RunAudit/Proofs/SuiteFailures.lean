import Mathlib.Data.List.Basic
import RunAudit.Proofs.Reconnected
import RunAudit.Proofs.Tallies

/-!
# Failed suites

The report on client logs tells of failures suite by suite, so a failure gets into it by way of the
suite that it belongs to. The tally of a log is exact, and hence no failure of a suite is lost. One
that belongs to no suite, because it names none and none was started by name before it, is not the
failure of a suite and has no place in the report.

* `Node.ClientFresh`, `Node.clientEntries?`: client logs that have not been read yet.
* `HasFailedSuite`, `Unfailing`: a log that tells of the failure of a suite, and one that tells of
  no failure at all.
* `passes_auditClient`: when the check of the client log of one node passes.
* `failed_suite_invalidates`: when the report on client logs is valid.
* `ownerless_failure_passes`: a failure that belongs to no suite.
-/

namespace RunAudit

open Log

/-- A node of which the client log, if there is one, is a text and has not been read yet. -/
def Node.ClientFresh (n : Node) : Prop := ∀ c, n.client = some c → ∃ text, c = .ofText .client text

/-- The entries of the client log of a node, as long as it has not been read. -/
def Node.clientEntries? (n : Node) : Option (List Entry) := n.client.map fun c => entriesIn c.lines

namespace Check.Suites

/-- **A log that tells of the failure of a suite**, which the failing entry names, or which was the
last to be started by name before it. -/
def HasFailedSuite (es : List Entry) : Prop :=
  ∃ before e after, es = before ++ e :: after ∧ e.marker = .suiteFailed ∧ owner before e ≠ none

/-- A client log that tells of no failed suite, and of no exception but an expected one. -/
structure Unfailing (es : List Entry) : Prop where
  suites : ¬ HasFailedSuite es
  exceptions : ∀ e ∈ es, e.isException = true →
    e.marker = .socketException ∨ e.marker = .testingExceptionsAcceptable

variable {node : Nat} {suite : String} {es : List Entry} {n : Node}

theorem faultless_suiteFindings (s : SuiteCounts) :
    Faultless (suiteFindings node suite s) ↔ s.failed = 0 := by
  have hwarning : ∀ (p : Prop) [Decidable p] (m : String),
      Faultless (if p then [.warning m] else []) := by
    intro p _ m
    split_ifs <;> simp
  have herror : ∀ m, Faultless (if 0 < s.failed then [.error m] else []) ↔ s.failed = 0 := by
    intro m
    split_ifs with h <;> simp <;> omega
  unfold suiteFindings
  simp only [faultless_append, hwarning, herror, faultless_info, faultless_nil, true_and, and_true]

/-- **A suite has a counted failure exactly if the log tells of one.** -/
theorem hasFailedSuite_iff :
    HasFailedSuite es ↔ ∃ suite s, (suite, s) ∈ (countSuites es).entries ∧ s.failed ≠ 0 := by
  have hcounts : ∀ suite s, (suite, s) ∈ (countSuites es).entries → s = tallied (owned suite es) := by
    intro suite s hmem
    have hget := Keyed.get?_eq_some.2 hmem
    rw [get?_countSuites] at hget
    unfold listed? at hget
    split_ifs at hget
    exact (Option.some.inj hget).symm
  have hfailed : ∀ suite, (tallied (owned suite es)).failed ≠ 0 ↔
      ∃ e ∈ owned suite es, e.marker = .suiteFailed := by
    intro suite
    rw [← Nat.pos_iff_ne_zero]
    simp only [tallied, List.countP_pos_iff, decide_eq_true_eq]
  constructor
  · rintro ⟨before, e, after, hes, hm, ho⟩
    obtain ⟨suite, ho⟩ := Option.ne_none_iff_exists'.1 ho
    have hne : (tallied (owned suite es)).failed ≠ 0 :=
      (hfailed suite).2 ⟨e, mem_owned.2 ⟨before, after, hes, ho⟩, hm⟩
    have hlisted : tallied (owned suite es) ≠ {} := fun h => hne (by rw [h])
    refine ⟨suite, _, Keyed.get?_eq_some.1 ?_, hne⟩
    rw [get?_countSuites, listed?_of_ne hlisted]
  · rintro ⟨suite, s, hmem, hne⟩
    rw [hcounts suite s hmem] at hne
    obtain ⟨e, he, hm⟩ := (hfailed suite).1 hne
    obtain ⟨before, after, hes, ho⟩ := mem_owned.1 he
    exact ⟨before, e, after, hes, hm, by rw [ho]; exact Option.some_ne_none _⟩

/-- What is said of the suites of a log is faultless exactly if none of them failed. -/
theorem faultless_countSuites :
    Faultless ((countSuites es).entries.flatMap fun (suite, s) => suiteFindings node suite s) ↔
      ¬ HasFailedSuite es := by
  rw [faultless_flatMap, hasFailedSuite_iff]
  simp only [faultless_suiteFindings, Prod.forall, not_exists, not_and, not_not]

/-- What is said of a client log with some entries. -/
def clientFindings (node : Nat) (es : List Entry) : List Finding :=
  ((countSuites es).entries.flatMap fun (suite, s) => suiteFindings node suite s)
    ++ exceptionFindings node "HAPI client" judgePeer (es.filter (·.isException))

theorem faultless_clientFindings : Faultless (clientFindings node es) ↔ Unfailing es := by
  unfold clientFindings
  rw [faultless_append, faultless_countSuites, faultless_exceptionFindings]
  simp only [Reconnection.judgePeer_ne_error, List.mem_filter, and_imp]
  exact ⟨fun ⟨hs, hx⟩ => ⟨hs, hx⟩, fun ⟨hs, hx⟩ => ⟨hs, hx⟩⟩

/-- The check of one node says nothing if there is no client log, and otherwise it reads the log to
its end. -/
theorem auditClient_cases (h : n.ClientFresh) (place : Nat) :
    (n.clientEntries? = none ∧ auditClient place n = .done [] n false) ∨
      ∃ es n', n.clientEntries? = some es ∧
        auditClient place n = .done (clientFindings place es) n' true := by
  unfold auditClient Node.clientEntries?
  cases hc : n.client with
  | none => exact .inl ⟨rfl, rfl⟩
  | some c =>
    obtain ⟨text, rfl⟩ := h c hc
    rcases sweep_cases (fun _ => true) (fun _ => []) (linesOf .client (utf8 text)) with
      ⟨-, c', hs, hx⟩ | ⟨hn, -⟩
    · have hs' : sweep (fun _ => true) (fun _ => []) (.ofText .client text) = _ := hs
      refine .inr ⟨_, { n with client := some c' }, rfl, ?_⟩
      dsimp only
      rw [hs', Audit.andThen_done, hx, List.filter_true]
      rfl
    · exact absurd (decodable_linesOf .client text) hn

theorem result_auditClient (h : n.ClientFresh) (place : Nat) :
    (auditClient place n).result = .ok n.clientEntries?.isSome := by
  rcases auditClient_cases h place with ⟨hes, ha⟩ | ⟨es, n', hes, ha⟩
  · rw [ha, hes]
    rfl
  · rw [ha, hes]
    rfl

theorem passes_auditClient (h : n.ClientFresh) (place : Nat) :
    (auditClient place n).Passes ↔ ∀ es, n.clientEntries? = some es → Unfailing es := by
  rcases auditClient_cases h place with ⟨hes, ha⟩ | ⟨es, n', hes, ha⟩
  · rw [ha, hes]
    simp
  · rw [ha, hes, Audit.passes_done, faultless_clientFindings]
    simp

/-- **When the report on client logs is valid.** Some node has a client log, and no client log
tells of the failure of a suite, or of an exception but an expected one. -/
theorem failed_suite_invalidates (nodes : List Node) (h : ∀ n ∈ nodes, n.ClientFresh) :
    (Validator.hapiClient nodes).Passes ↔
      (∃ n ∈ nodes, n.clientEntries? ≠ none) ∧
        ∀ n ∈ nodes, ∀ es, n.clientEntries? = some es → Unfailing es := by
  have hresult : (Audit.each auditClient nodes).result =
      .ok (nodes.map fun n => n.clientEntries?.isSome) :=
    Audit.result_each fun place n hn => result_auditClient (h n hn) place
  have hnodes : (Audit.each auditClient nodes).Passes ↔
      ∀ n ∈ nodes, ∀ es, n.clientEntries? = some es → Unfailing es :=
    Audit.passes_each_of_iff fun place n hn => passes_auditClient (h n hn) place
  have hclients : Faultless (if (nodes.map fun n => n.clientEntries?.isSome).any id then []
      else [.error "No node has a HAPI client log"]) ↔ ∃ n ∈ nodes, n.clientEntries? ≠ none := by
    have hany : (nodes.map fun n => n.clientEntries?.isSome).any id = true ↔
        ∃ n ∈ nodes, n.clientEntries? ≠ none := by
      simp [Option.isSome_iff_ne_none]
    rw [← hany]
    split_ifs with hsome <;> simp [hsome]
  rw [Validator.passes_iff, Validator.audit, Audit.passes_within, audit, Audit.passes_conclude,
    ← hnodes, ← hclients, Audit.Passes, hresult]
  simp only [Except.ok.injEq, exists_eq_left', exists_eq', true_and]
  exact and_comm

/-- A client log that ends with a failure of the suite that was started last, which starts over
without its name. -/
def transfersLog : String :=
  "2024-03-01 10:00:00 SUITE_START 'Transfers'\n" ++
  "2024-03-01 10:00:10 SUITE_START again\n" ++
  "2024-03-01 10:00:20 SUITE_FAILED 2 specs"

/-- Two nodes, of which the second has that log. -/
def transfersNodes : List Node := [{}, { client := some (.ofText .client transfersLog) }]

theorem failed_suite_invalidates_transfersNodes :
    (∀ n ∈ transfersNodes, n.ClientFresh) ∧
      HasFailedSuite (entriesIn (linesOf .client (utf8 transfersLog))) ∧
      ¬ (Validator.hapiClient transfersNodes).Passes := by
  have hfresh : ∀ n ∈ transfersNodes, n.ClientFresh := by
    intro n hn c hc
    simp only [transfersNodes, List.mem_cons, List.not_mem_nil, or_false] at hn
    rcases hn with rfl | rfl <;> cases hc
    exact ⟨_, rfl⟩
  have hfailed : HasFailedSuite (entriesIn (linesOf .client (utf8 transfersLog))) :=
    hasFailedSuite_iff.2 ⟨"Transfers", ⟨2, 0, 1, 0, 0⟩, by decide +kernel, by decide⟩
  refine ⟨hfresh, hfailed, fun hpass => ?_⟩
  have hall := ((failed_suite_invalidates transfersNodes hfresh).1 hpass).2
  have hunfailing := hall _ (List.mem_cons_of_mem _ List.mem_cons_self) _ rfl
  exact hunfailing.suites hfailed

/-- A node of which the client log tells of a failure before any suite was started by name. -/
def ownerlessNode : Node where
  client := some (.ofText .client "2024-03-01 10:15:30.123 SUITE_FAILED all specs failed")

/-- A failure that belongs to no suite does not keep the report from being valid. -/
theorem ownerless_failure_passes :
    (∀ n ∈ [ownerlessNode], n.ClientFresh) ∧
      (∃ es, ownerlessNode.clientEntries? = some es ∧ ∃ e ∈ es, e.marker = .suiteFailed) ∧
      (Validator.hapiClient [ownerlessNode]).Passes := by
  refine ⟨?_, ⟨_, rfl, ?_⟩, by decide +kernel⟩
  · intro n hn c hc
    cases List.mem_singleton.1 hn
    cases hc
    exact ⟨_, rfl⟩
  · have hany : (entriesIn (linesOf .client (utf8
        "2024-03-01 10:15:30.123 SUITE_FAILED all specs failed"))).any
          (·.marker = .suiteFailed) = true := by decide +kernel
    simpa using hany

end Check.Suites

end RunAudit
