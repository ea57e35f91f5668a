import Mathlib.Data.List.Basic
import RunAudit.Proofs.Isolation
import RunAudit.Proofs.Recoveries

/-!
# What a recovery says of all nodes

The check of a recovery collects the rounds that nodes recovered, and says that all nodes recovered a
round if it has collected no other. A node without a log, without a saved state or without a number
adds nothing to the collection. So the message speaks of the nodes that recovered some round, and
the others have errors of their own.

* `shortfall?`: why a node has recovered no round.
* `claims_agreement_iff`: which round is said to be that of all nodes.
* `auditLog_of_ok`, `of_report`: what is said of one log, and what a report is made of.
* `agreement_claimed`: when a report says that all nodes recovered a round.
* `silent_node_counted`: it can say so of a node that has no log.
-/

namespace RunAudit.Check.Recovery

open Log

/-- **Why a node has recovered no round**, as the report says it. -/
def shortfall? (place : Nat) (n : Node) : Option String :=
  match n.entries? with
  | none => some s!"Node {place} log is missing or unreadable"
  | some es =>
    match es.find? (·.marker = .stateSaved) with
    | none => some s!"Node {place} never saved a recovered state"
    | some e =>
      if e.trailingNumber?.isSome then none
      else some s!"Node {place} saved its recovered state without a round number: {e.text}"

/-- What a report says if it finds one round only. -/
def agreement (round : Nat) : String := s!"All nodes recovered round {round}"

variable {nodes : List Node} {n : Node} {place round : Nat} {lines : List Line}
  {rounds : List (Option Nat)} {validator message : String}

theorem agreement_inj {a b : Nat} : agreement a = agreement b ↔ a = b := by
  refine ⟨fun h => ?_, congrArg agreement⟩
  have hdigits : Nat.toDigits 10 a = Nat.toDigits 10 b := by
    have htexts : (agreement a).toList = (agreement b).toList := by rw [h]
    unfold agreement at htexts
    rw [String.toList_append, String.toList_append] at htexts
    simpa using List.append_cancel_left htexts
  rw [← Nat.ofDigitChars_ten_toDigits (n := a), hdigits, Nat.ofDigitChars_ten_toDigits]

theorem head?_agreement (round : Nat) : (agreement round).toList.head? = some 'A' := by
  unfold agreement
  rw [String.toList_append, List.head?_append]
  rfl

theorem head?_exceptionMessage (source : String) (e : Entry) :
    (exceptionMessage place source e).toList.head? = some 'N' := by
  unfold exceptionMessage
  simp only [String.toList_append, List.append_assoc]
  rw [List.head?_append]
  rfl

theorem agreement_ne_exceptionMessage (source : String) (e : Entry) :
    agreement round ≠ exceptionMessage place source e := by
  intro h
  have hhead : (exceptionMessage place source e).toList.head? = some 'N' :=
    head?_exceptionMessage source e
  rw [← h, head?_agreement] at hhead
  exact absurd hhead (by decide)

/-- A node that has recovered no round falls short for some reason. -/
theorem isSome_shortfall? : (shortfall? place n).isSome = true ↔ nodeRound? n = none := by
  unfold shortfall? nodeRound? recoveredRound?
  cases n.entries? with
  | none => simp
  | some es =>
    simp only [Option.bind_some]
    cases es.find? (·.marker = .stateSaved) with
    | none => simp
    | some e => cases he : e.trailingNumber? <;> simp [he]

/-- **The round that is said to be that of all nodes** is the only one that some node recovered. -/
theorem claims_agreement_iff :
    .info (agreement round) ∈ agreementFindings rounds ↔
      some round ∈ rounds ∧ ∀ other, some other ∈ rounds → other = round := by
  rcases agreementFindings_cases rounds with
    ⟨hsaid, hnone⟩ | ⟨found, hsaid, hone⟩ | ⟨message, a, b, hsaid, ha, hb, hne⟩
  · rw [hsaid]
    exact iff_of_false List.not_mem_nil fun h => hnone round h.1
  · have hsame : Finding.info (agreement round) ∈ [Finding.info (agreement found)] ↔
        round = found := by
      rw [List.mem_singleton, Finding.info.injEq, agreement_inj]
    rw [hsaid]
    refine hsame.trans ?_
    simp only [hone, forall_eq]
    exact ⟨fun h => ⟨h, h.symm⟩, fun h => h.1⟩
  · rw [hsaid]
    exact iff_of_false (by simp) fun h => hne ((h.2 a ha).trans (h.2 b hb).symm)

/-- One round stands for all that nodes recovered. -/
theorem only_round_iff :
    (some round ∈ nodes.map nodeRound? ∧
        ∀ other, some other ∈ nodes.map nodeRound? → other = round) ↔
      (∃ n ∈ nodes, nodeRound? n = some round) ∧
        ∀ n ∈ nodes, nodeRound? n = none ∨ nodeRound? n = some round := by
  rw [List.mem_map]
  refine and_congr_right fun _ => ?_
  constructor
  · intro hall n hn
    cases hround : nodeRound? n with
    | none => exact .inl rfl
    | some other => exact .inr (congrArg some (hall other (hround ▸ List.mem_map_of_mem hn)))
  · intro hall other hother
    obtain ⟨n, hn, hround⟩ := List.mem_map.1 hother
    rcases hall n hn with hnone | hsome
    · cases hround.symm.trans hnone
    · exact Option.some.inj (hround.symm.trans hsome)

/-- The check of a log that comes to its end has read all of it. -/
theorem decodable_of_ok {x : Option Nat} (h : (auditLog place { lines }).result = .ok x) :
    Decodable lines := by
  obtain ⟨saved, hsaved, h⟩ := Audit.result_andThen.1 h
  obtain ⟨_, -, h⟩ := Audit.result_andThen.1 h
  obtain ⟨finished, hfinished, h⟩ := Audit.result_andThen.1 h
  obtain ⟨_, -, h⟩ := Audit.result_andThen.1 h
  obtain ⟨found, hfound, -⟩ := Audit.result_andThen.1 h
  -- neither search hides anything from the one that reads on to the end
  obtain ⟨k, hk, hc⟩ := follows_of_seek (Cursor.follows_start lines) hsaved
  obtain ⟨k', hk', hc'⟩ := follows_of_seek hk hfinished
  rcases sweep_from (fun _ => false) (fun _ => []) hk' with ⟨hclear, -⟩ | ⟨-, hs⟩
  · exact (Cursor.clear_start_iff lines).1 (hc.2 (hc'.2 hclear))
  · cases hs.symm.trans hfound

theorem mem_infos_logFindings {saved finished : Option Entry} {es : List Entry}
    (h : .info message ∈ logFindings place saved finished es) :
    ∃ e, message = exceptionMessage place "log" e := by
  unfold logFindings at h
  rcases List.mem_append.1 h with h | h
  · unfold savedFindings at h
    split at h
    · simp at h
    · split at h <;> simp at h
  · rcases List.mem_append.1 h with h | h
    · unfold finishFindings at h
      split at h <;> simp at h
    · obtain ⟨e, -, he⟩ := List.mem_filterMap.1 h
      refine ⟨e, ?_⟩
      cases hj : judgeRestart e with
      | info =>
        rw [hj] at he
        cases he
        rfl
      | _ =>
        rw [hj] at he
        cases he

/-- **The check of one log, whatever it comes across**: if it comes to its end, it has the round of
the first saved state or says why there is none, and says nothing to anyone's credit but of
exceptions. -/
theorem auditLog_of_ok (h : n.Unread) {x : Option Nat}
    (hok : (n.auditLog validator none auditLog place).result = .ok x) :
    x = nodeRound? n ∧
      (∀ message, .info message ∈ (n.auditLog validator none auditLog place).findings →
        ∃ e, message = exceptionMessage place "log" e) ∧
      ∀ message, shortfall? place n = some message →
        .error message ∈ (n.auditLog validator none auditLog place).findings := by
  unfold Node.auditLog at hok ⊢
  unfold nodeRound? shortfall? Node.entries?
  cases hl : n.log with
  | none =>
    rw [hl] at hok
    cases hok
    simp [logMissing]
  | some c =>
    rw [hl] at hok
    obtain ⟨lines, rfl⟩ := h c hl
    obtain ⟨finished, c, ha, -⟩ := auditLog_of_decodable place (decodable_of_ok hok)
    simp only [ha, Option.map_some, Option.bind_some] at hok ⊢
    cases hok
    refine ⟨rfl, fun message => mem_infos_logFindings, ?_⟩
    intro message hm
    refine List.mem_append_left _ ?_
    unfold savedFindings
    cases hf : (entriesIn lines).find? (·.marker = .stateSaved) with
    | none => simp_all
    | some e => by_cases hn : e.trailingNumber?.isSome = true <;> simp_all

/-- The check of all logs, if it comes to its end. -/
theorem each_of_ok (h : ∀ n ∈ nodes, n.Unread) {as : List (Option Nat)}
    (hok : (Audit.each (Node.auditLog validator none auditLog) nodes).result = .ok as) :
    as = nodes.map nodeRound? ∧
      (∀ message, .info message ∈
          (Audit.each (Node.auditLog validator none auditLog) nodes).findings →
        ∃ i e, message = exceptionMessage i "log" e) ∧
      ∀ i n message, nodes[i]? = some n → shortfall? i n = some message → .error message ∈
        (Audit.each (Node.auditLog validator none auditLog) nodes).findings := by
  have hnode : ∀ (i : Nat) (n : Node), nodes[i]? = some n →
      (n.auditLog validator none auditLog i).result = .ok (nodeRound? n) := by
    intro i n hn
    obtain ⟨⟨x, hx⟩, -⟩ := Audit.of_each hok hn
    rw [hx, (auditLog_of_ok (h n (List.mem_of_getElem? hn)) hx).1]
  refine ⟨?_, ?_, ?_⟩
  · have hresults := (Audit.result_eachFrom _ 0 nodes as).1 hok
    have hinjective : Function.Injective (Except.ok : Option Nat → Except Failure (Option Nat)) :=
      fun _ _ => Except.ok.inj
    refine List.map_injective_iff.2 hinjective (hresults.symm.trans ?_)
    refine List.ext_getElem (by simp) fun i hi _ => ?_
    rw [List.getElem_mapIdx, List.getElem_map, List.getElem_map, Nat.zero_add]
    exact hnode i _ (List.getElem?_eq_getElem (by simpa using hi))
  · intro message hm
    obtain ⟨hfindings, -⟩ := Audit.of_eachFrom hok
    rw [Audit.each, hfindings, List.mem_flatten] at hm
    obtain ⟨fs, hfs, hmem⟩ := hm
    obtain ⟨i, hi, rfl⟩ := List.mem_mapIdx.1 hfs
    rw [Nat.zero_add] at hmem
    have hn : nodes[i]? = some nodes[i] := List.getElem?_eq_getElem hi
    obtain ⟨e, he⟩ := (auditLog_of_ok (h _ (List.getElem_mem hi)) (hnode i _ hn)).2.1 message hmem
    exact ⟨i, e, he⟩
  · intro i n message hn hm
    refine (Audit.of_each hok hn).2 ?_
    exact (auditLog_of_ok (h n (List.mem_of_getElem? hn)) (hnode i n hn)).2.2 message hm

/-- What a report is made of: what is said of each log, and of the rounds at the end. -/
theorem of_report (h : ∀ n ∈ nodes, n.Unread) {r : Report}
    (hr : (Validator.recoverState nodes).report = .ok r) :
    ∃ fs, r = { Report.extend { validator := Kind.recoverState.name }
          (fs ++ agreementFindings (nodes.map nodeRound?)) with validated := true } ∧
      (∀ message, .info message ∈ fs → ∃ i e, message = exceptionMessage i "log" e) ∧
      ∀ i n message, nodes[i]? = some n → shortfall? i n = some message → .error message ∈ fs := by
  have hresult : (audit Kind.recoverState.name nodes).result = .ok () := (of_ofAudit hr).1
  obtain ⟨as, hok⟩ := (Audit.result_conclude _).1 hresult
  obtain ⟨rfl, hinfos, herrors⟩ := each_of_ok h hok
  have hfindings : (Validator.recoverState nodes).audit.findings =
      (Audit.each (Node.auditLog Kind.recoverState.name none auditLog) nodes).findings ++
        agreementFindings (nodes.map nodeRound?) :=
    congrArg Audit.findings (Audit.conclude_of_ok hok fun _ rounds => agreementFindings rounds)
  exact ⟨_, hfindings ▸ eq_of_ofAudit hr, hinfos, herrors⟩

/-- **When a report says that all nodes recovered a round**: some node recovered it, and no node
another one. Each node that recovered no round has an error of its own, so the message holds of all
nodes if the report is valid. -/
theorem agreement_claimed (h : ∀ n ∈ nodes, n.Unread) {r : Report}
    (hr : (Validator.recoverState nodes).report = .ok r) (round : Nat) :
    (agreement round ∈ r.infos ↔ (∃ n ∈ nodes, nodeRound? n = some round) ∧
      ∀ n ∈ nodes, nodeRound? n = none ∨ nodeRound? n = some round) ∧
    (∀ i n, nodes[i]? = some n → nodeRound? n = none →
      ∃ message, shortfall? i n = some message ∧ message ∈ r.errors) ∧
    (agreement round ∈ r.infos → r.isValid = true → ∀ n ∈ nodes, nodeRound? n = some round) := by
  obtain ⟨fs, hreport, hinfos, herrors⟩ := of_report h hr
  have hclaim : agreement round ∈ r.infos ↔ (∃ n ∈ nodes, nodeRound? n = some round) ∧
      ∀ n ∈ nodes, nodeRound? n = none ∨ nodeRound? n = some round := by
    rw [hreport, ← only_round_iff, ← claims_agreement_iff]
    constructor
    · intro hm
      obtain ⟨f, hf, hinfo⟩ := List.mem_filterMap.1 hm
      obtain rfl : f = .info (agreement round) := by
        cases f <;> cases hinfo
        rfl
      -- what is said of single logs has other words
      refine (List.mem_append.1 hf).resolve_left fun hlog => ?_
      obtain ⟨i, e, he⟩ := hinfos _ hlog
      exact agreement_ne_exceptionMessage _ _ he
    · intro hm
      exact List.mem_filterMap.2 ⟨_, List.mem_append_right _ hm, rfl⟩
  have hshort : ∀ i n, nodes[i]? = some n → nodeRound? n = none →
      ∃ message, shortfall? i n = some message ∧ message ∈ r.errors := by
    intro i n hn hnone
    obtain ⟨message, hm⟩ := Option.isSome_iff_exists.1 (isSome_shortfall?.2 hnone)
    refine ⟨message, hm, ?_⟩
    rw [hreport]
    exact List.mem_filterMap.2 ⟨_, List.mem_append_left _ (herrors i n message hn hm), rfl⟩
  refine ⟨hclaim, hshort, fun hagree hvalid n hn => ?_⟩
  refine ((hclaim.1 hagree).2 n hn).resolve_left fun hnone => ?_
  obtain ⟨i, hi⟩ := List.mem_iff_getElem?.1 hn
  obtain ⟨message, -, hm⟩ := hshort i n hi hnone
  -- a valid report has no errors
  have hempty : r.errors = [] := List.isEmpty_iff.1 (Bool.and_eq_true_iff.1 hvalid).2
  rw [hempty] at hm
  cases hm

/-- A node that left nothing. -/
def silentNode : Node := {}

/-- Two nodes, the first of which recovered round 5. -/
def partlyRecovered : List Node :=
  nodesLogging
    ["2024-03-01 10:00:00 STATE_SAVED round 5\n" ++
     "2024-03-01 10:00:00 PTD_FINISH"] ++ [silentNode]

theorem silentNode_mem : silentNode ∈ partlyRecovered :=
  List.mem_append_right _ List.mem_cons_self

theorem partlyRecovered_fresh : ∀ n ∈ partlyRecovered, n.Fresh := by
  intro n hn
  rcases List.mem_append.1 hn with hn | hn
  · exact nodesLogging_fresh _ n hn
  · rw [List.mem_singleton.1 hn]
    intro c hc
    cases hc

/-- The report on these nodes, as far as it is asked for here. -/
theorem partlyRecovered_report :
    ∃ r, (Validator.recoverState partlyRecovered).report = .ok r ∧ agreement 5 ∈ r.infos := by
  have hsome : (Validator.recoverState partlyRecovered).report.toOption.any
      (fun r => decide (agreement 5 ∈ r.infos)) = true := by decide +kernel
  cases hr : (Validator.recoverState partlyRecovered).report with
  | error failure =>
    rw [hr] at hsome
    cases hsome
  | ok r =>
    rw [hr] at hsome
    exact ⟨r, rfl, of_decide_eq_true hsome⟩

theorem agreement_claimed_partlyRecovered :
    ∃ r, (Validator.recoverState partlyRecovered).report = .ok r ∧
      (∀ n ∈ partlyRecovered, nodeRound? n = none ∨ nodeRound? n = some 5) ∧
      "Node 1 log is missing or unreadable" ∈ r.errors ∧ r.isValid = false := by
  obtain ⟨r, hr, hagree⟩ := partlyRecovered_report
  obtain ⟨hclaim, hshort, hvalid⟩ :=
    agreement_claimed (fun n hn => (partlyRecovered_fresh n hn).unread) hr 5
  obtain ⟨message, hm, herror⟩ := hshort 1 silentNode rfl rfl
  cases hm
  refine ⟨r, hr, (hclaim.1 hagree).2, herror, ?_⟩
  rw [← Bool.not_eq_true]
  intro hv
  cases hvalid hagree hv silentNode silentNode_mem

/-- **All nodes can be said to have recovered a round although one of them has no log.** -/
theorem silent_node_counted :
    ¬ ∀ nodes : List Node, (∀ n ∈ nodes, n.Fresh) →
      ∀ r, (Validator.recoverState nodes).report = .ok r →
        ∀ round : Nat, s!"All nodes recovered round {round}" ∈ r.infos →
          ∀ n ∈ nodes, nodeRound? n = some round := by
  intro hall
  obtain ⟨r, hr, hagree⟩ := partlyRecovered_report
  cases hall partlyRecovered partlyRecovered_fresh r hr 5 hagree silentNode silentNode_mem

end RunAudit.Check.Recovery
