import Mathlib.Data.List.Chain
import Mathlib.Data.Set.List
import RunAudit.Proofs.Signatures

/-!
# When event streams pass

The check of event streams goes over the nodes five times, and each time it leaves some of them out:
those without data, those without a final hash, those whose lists cannot be compared with the first.
What one pass leaves out is an error of another. So a report is valid only if every node, every two
neighbours and every node beside the first have been looked at.

* `Complete`, `HashesAgree`: what is asked of a node, and of two neighbours.
* `faultless_findings`: the five passes over nodes that all have data.
* `notes`: what a check that passes says of each of its comparisons.
* `streams_pass_iff`: when the check passes, and that nothing has been left out then.
-/

namespace RunAudit.Check.Streams

open EventStream

variable {nodes : List (Option StreamData)} {recovered : Bool} {node : Nat}
  {a b d first : StreamData} {ds others : List StreamData}

/-- **What is asked of a node**: it wrote events and hashed them, its list of signature files names
nothing else, and the events that it recovered are those that it wrote. -/
structure Complete (recovered : Bool) (d : StreamData) : Prop where
  fileHashes_ne : d.fileHashes ≠ []
  finalHash_ne : d.finalHash ≠ ""
  malformed_eq : d.malformed = []
  recovered_match : ∀ line, d.recoveredMatch = some line →
    recoveredEventsMatch.toList <:+: line.toList
  reported : d.recoveredMatch = none → recovered = false

/-- **What is asked of two neighbours**: one final hash, or file hashes that are not the same, but
are equal at all places but the last of the shorter list. -/
def HashesAgree (a b : StreamData) : Prop :=
  a.finalHash = b.finalHash ∨
    (a.fileHashes ≠ b.fileHashes ∧
      ∀ p, p + 1 < min a.fileHashes.length b.fileHashes.length →
        a.fileHashes[p]? = b.fileHashes[p]?)

theorem neighboursAgree_iff : NeighboursAgree a b ↔ HashesAgree a b :=
  or_congr_right compareLists_eq_trailingDivergence

theorem faultless_malformedFindings :
    Faultless (malformedFindings node (some d)) ↔ d.malformed = [] := by
  cases h : d.malformed <;> simp [malformedFindings, h]

theorem faultless_recoveredFindings :
    Faultless (recoveredFindings recovered node (some d)) ↔
      (∀ line, d.recoveredMatch = some line → recoveredEventsMatch.toList <:+: line.toList) ∧
        (d.recoveredMatch = none → recovered = false) := by
  unfold recoveredFindings
  cases h : d.recoveredMatch with
  | none => cases recovered <;> simp [h]
  | some line =>
    simp only [h, ← Text.occursIn_iff, Option.some.injEq, forall_eq', reduceCtorEq, false_implies,
      and_true]
    cases Text.occursIn recoveredEventsMatch.toList line.toList <;> simp

/-- A pass over nodes that all have data. -/
theorem faultless_pass {f : Nat → Option StreamData → List Finding} {P : StreamData → Prop}
    (h : ∀ node d, Faultless (f node (some d)) ↔ P d) :
    Faultless ((ds.map some).mapIdx f).flatten ↔ ∀ d ∈ ds, P d := by
  rw [faultless_mapIdx]
  constructor
  · intro hall d hd
    obtain ⟨i, hi⟩ := List.mem_iff_getElem?.1 hd
    exact (h i d).1 (hall i (some d) (by rw [List.getElem?_map, hi, Option.map_some]))
  · intro hall i o ho
    obtain ⟨d, hd, rfl⟩ := List.mem_map.1 (List.mem_of_getElem? ho)
    exact (h i d).2 (hall d hd)

/-- Neighbours are compared one by one, as each has a final hash. -/
theorem faultless_hashFindings_some (h : ∀ d ∈ ds, d.finalHash ≠ "") :
    Faultless (hashFindings node (ds.map some)) ↔ ds.IsChain HashesAgree := by
  induction ds generalizing node with
  | nil => simp [hashFindings]
  | cons a ds ih =>
    cases ds with
    | nil => simp [hashFindings]
    | cons b ds =>
      obtain ⟨ha, hlater⟩ := List.forall_mem_cons.1 h
      have hb : b.finalHash ≠ "" := hlater b List.mem_cons_self
      have hstep : hashFindings node ((a :: b :: ds).map some) =
          pairFindings node a b ++ hashFindings (node + 1) ((b :: ds).map some) := rfl
      rw [hstep, faultless_append, faultless_pairFindings ha hb, neighboursAgree_iff,
        ih hlater, List.isChain_cons_cons]

/-- **The five passes** over nodes that all have data. -/
theorem faultless_findings :
    Faultless (findings recovered ((first :: others).map some)) ↔
      (∀ d ∈ first :: others, Complete recovered d) ∧
        (first :: others).IsChain HashesAgree ∧
        ∀ d ∈ others, EqualUpTo sigTolerance first.sigFiles d.sigFiles := by
  have hevents : Faultless (((first :: others).map some).mapIdx eventFindings).flatten ↔
      ∀ d ∈ first :: others, d.fileHashes ≠ [] ∧ d.finalHash ≠ "" :=
    faultless_pass fun node d => by simp [faultless_eventFindings]
  have hsigs : Faultless (referenceFindings ((first :: others).map some)) ↔
      ∀ d ∈ others, EqualUpTo sigTolerance first.sigFiles d.sigFiles :=
    faultless_pass fun node d => faultless_sigFindings
  have hmalformed : Faultless (((first :: others).map some).mapIdx malformedFindings).flatten ↔
      ∀ d ∈ first :: others, d.malformed = [] :=
    faultless_pass fun node d => faultless_malformedFindings
  have hrecovered : Faultless
      (((first :: others).map some).mapIdx (recoveredFindings recovered)).flatten ↔
      ∀ d ∈ first :: others, _ := faultless_pass fun node d => faultless_recoveredFindings
  unfold findings
  simp only [faultless_append]
  rw [hevents, hsigs, hmalformed, hrecovered]
  constructor
  · rintro ⟨⟨⟨⟨he, hh⟩, hs⟩, hm⟩, hr⟩
    have hchain := (faultless_hashFindings_some fun d hd => (he d hd).2).1 hh
    exact ⟨fun d hd => ⟨(he d hd).1, (he d hd).2, hm d hd, (hr d hd).1, (hr d hd).2⟩, hchain, hs⟩
  · rintro ⟨hc, hchain, hs⟩
    have hh : Faultless (hashFindings 1 ((first :: others).map some)) :=
      (faultless_hashFindings_some fun d hd => (hc d hd).finalHash_ne).2 hchain
    exact ⟨⟨⟨⟨fun d hd => ⟨(hc d hd).fileHashes_ne, (hc d hd).finalHash_ne⟩, hh⟩, hs⟩,
      fun d hd => (hc d hd).malformed_eq⟩,
      fun d hd => ⟨(hc d hd).recovered_match, (hc d hd).reported⟩⟩

/-- A check that passes has data of every node. -/
theorem all_some_of_passes (h : (Validator.streamingServer nodes recovered).Passes) :
    ∃ first others, nodes = (first :: others).map some := by
  obtain ⟨hne, -⟩ := passes_streamingServer.1 h
  have hsome : nodes ∈ Set.range (List.map some) := by
    rw [Set.range_list_map]
    intro d hd
    obtain ⟨k, hk⟩ := List.mem_iff_getElem?.1 hd
    obtain ⟨a, ha⟩ := (wellFormed_of_passes h).1 k (List.getElem?_eq_some_iff.1 hk).1
    exact ⟨a, Option.some.inj (ha.symm.trans hk)⟩
  obtain ⟨ds, rfl⟩ := hsome
  cases ds with
  | nil => exact absurd rfl hne
  | cons first others => exact ⟨first, others, rfl⟩

/-- What is said of two neighbours that agree. -/
def pairNotes (node : Nat) (previous current : StreamData) : List String :=
  if previous.finalHash = current.finalHash then []
  else [s!"Nodes {node - 1} and {node} have different final hashes because of "
    ++ "trailing divergence in their last event file"]

/-- What is said of a node that agrees with the first on its signature files. -/
def sigNotes (reference : StreamData) (node : Nat) (d : StreamData) : List String :=
  if reference.sigFiles = d.sigFiles then []
  else [s!"Node {node} signature files diverge from node 0 only in the last "
    ++ s!"{sigTolerance} files"]

/-- What is said of a node whose recovered events match, if it had any to recover. -/
def recoveredNotes (node : Nat) (d : StreamData) : List String :=
  match d.recoveredMatch with
  | some _ => [s!"Node {node} recovered events match the original stream"]
  | none => []

/-- **What a check that passes says**: of every two neighbours, of every node beside the first, and of
every node. -/
def notes (first : StreamData) (others : List StreamData) : List String :=
  (((first :: others).zip others).mapIdx fun i (a, b) => pairNotes (i + 1) a b).flatten
    ++ (others.mapIdx fun i d => sigNotes first (i + 1) d).flatten
    ++ ((first :: others).mapIdx recoveredNotes).flatten

/-- What a pass over nodes that all have data says. -/
theorem infos_pass {f : Nat → Option StreamData → List Finding}
    {note : Nat → StreamData → List String}
    (h : ∀ node, ∀ d ∈ ds, (f node (some d)).filterMap Finding.info? = note node d) :
    ((ds.map some).mapIdx f).flatten.filterMap Finding.info? = (ds.mapIdx note).flatten := by
  rw [filterMap_flatten_mapIdx]
  refine congrArg List.flatten (List.ext_getElem? fun i => ?_)
  rw [List.getElem?_mapIdx, List.getElem?_mapIdx, List.getElem?_map]
  cases hi : ds[i]? with
  | none => rfl
  | some d => exact congrArg some (h i d (List.mem_of_getElem? hi))

theorem infos_silentPass {f : Nat → Option StreamData → List Finding}
    (h : ∀ node, ∀ d ∈ ds, f node (some d) = []) :
    ((ds.map some).mapIdx f).flatten.filterMap Finding.info? = [] := by
  have hnothing : ((ds.map some).mapIdx f).flatten.filterMap Finding.info? =
      (ds.mapIdx fun _ _ => []).flatten :=
    infos_pass fun node d hd => by rw [h node d hd, List.filterMap_nil]
  rw [hnothing, List.flatten_eq_nil_iff]
  intro said hsaid
  obtain ⟨i, hi, rfl⟩ := List.mem_mapIdx.1 hsaid
  rfl

theorem infos_pairFindings (ha : a.finalHash ≠ "") (hb : b.finalHash ≠ "")
    (h : NeighboursAgree a b) :
    (pairFindings node a b).filterMap Finding.info? = pairNotes node a b := by
  unfold pairFindings pairNotes
  by_cases hfinal : a.finalHash = b.finalHash
  · simp [hfinal]
  · rw [if_neg (by simpa using ⟨⟨ha, hb⟩, hfinal⟩), if_neg hfinal, h.resolve_left hfinal]
    rfl

theorem infos_hashFindings (hfinal : ∀ d ∈ ds, d.finalHash ≠ "") (h : ds.IsChain HashesAgree) :
    (hashFindings node (ds.map some)).filterMap Finding.info? =
      ((ds.zip ds.tail).mapIdx fun i (a, b) => pairNotes (i + node) a b).flatten := by
  induction ds generalizing node with
  | nil => rfl
  | cons a ds ih =>
    cases ds with
    | nil => rfl
    | cons b ds =>
      obtain ⟨ha, hlater⟩ := List.forall_mem_cons.1 hfinal
      obtain ⟨hab, hchain⟩ := List.isChain_cons_cons.1 h
      have hfirst : (pairFindings node a b).filterMap Finding.info? = pairNotes node a b :=
        infos_pairFindings ha (hlater b List.mem_cons_self) (neighboursAgree_iff.2 hab)
      have hstep : hashFindings node ((a :: b :: ds).map some) =
          pairFindings node a b ++ hashFindings (node + 1) ((b :: ds).map some) := rfl
      have hzip : (a :: b :: ds).zip (a :: b :: ds).tail = (a, b) :: (b :: ds).zip ds := rfl
      rw [hstep, List.filterMap_append, hfirst, ih hlater hchain, hzip, List.mapIdx_cons,
        List.flatten_cons, Nat.zero_add, List.tail_cons]
      simp only [Nat.add_assoc, Nat.add_comm 1]

theorem infos_sigFindings (h : EqualUpTo sigTolerance a.sigFiles b.sigFiles) :
    (sigFindings a node (some b)).filterMap Finding.info? = sigNotes a node b := by
  have hshort : ¬ sigTolerance < max b.sigFiles.length a.sigFiles.length
      - min b.sigFiles.length a.sigFiles.length := by
    have := h.length_le
    have := h.le_length
    omega
  have hequal : compareLists a.sigFiles b.sigFiles sigTolerance = .identical ↔
      a.sigFiles = b.sigFiles := compareLists_eq_identical
  have hnot := not_diverges_iff.2 h.getElem?_eq
  simp only [sigFindings, if_neg hshort, sigNotes, ← hequal]
  cases hc : compareLists a.sigFiles b.sigFiles sigTolerance with
  | identical => rfl
  | trailingDivergence => rfl
  | divergesAt index => exact absurd hc (hnot index)

theorem infos_recoveredFindings (h : Complete recovered d) :
    (recoveredFindings recovered node (some d)).filterMap Finding.info? = recoveredNotes node d := by
  unfold recoveredFindings recoveredNotes
  cases hm : d.recoveredMatch with
  | none => simp [hm, h.reported hm]
  | some line =>
    have hmatch := (Text.occursIn_iff _ _).2 (h.recovered_match line hm)
    simp only [hm, if_pos hmatch]
    rfl

theorem eventFindings_of_complete (h : Complete recovered d) : eventFindings node (some d) = [] := by
  have hfinal : d.finalHash.isEmpty = false := by simpa using h.finalHash_ne
  obtain ⟨hash, hashes, hf⟩ := List.exists_cons_of_ne_nil h.fileHashes_ne
  simp [eventFindings, hf, hfinal]

theorem malformedFindings_of_complete (h : Complete recovered d) :
    malformedFindings node (some d) = [] := by
  simp [malformedFindings, h.malformed_eq]

/-- **What is said of nodes that nothing is wrong with.** -/
theorem infos_findings (hcomplete : ∀ d ∈ first :: others, Complete recovered d)
    (hchain : (first :: others).IsChain HashesAgree)
    (hsigs : ∀ d ∈ others, EqualUpTo sigTolerance first.sigFiles d.sigFiles) :
    (findings recovered ((first :: others).map some)).filterMap Finding.info? =
      notes first others := by
  have hevents := infos_silentPass (f := eventFindings) fun node d hd =>
    eventFindings_of_complete (hcomplete d hd)
  have hmalformed := infos_silentPass (f := malformedFindings) fun node d hd =>
    malformedFindings_of_complete (hcomplete d hd)
  have hhashes : (hashFindings 1 ((first :: others).map some)).filterMap Finding.info? = _ :=
    infos_hashFindings (fun d hd => (hcomplete d hd).finalHash_ne) hchain
  have hreferences : (referenceFindings ((first :: others).map some)).filterMap Finding.info? =
      (others.mapIdx fun i d => sigNotes first (i + 1) d).flatten :=
    infos_pass fun node d hd => infos_sigFindings (hsigs d hd)
  have hrecovered : (((first :: others).map some).mapIdx
      (recoveredFindings recovered)).flatten.filterMap Finding.info? =
      ((first :: others).mapIdx recoveredNotes).flatten :=
    infos_pass fun node d hd => infos_recoveredFindings (hcomplete d hd)
  simp only [findings, notes, List.filterMap_append, hevents, hmalformed, hhashes, hreferences,
    hrecovered, List.nil_append, List.append_nil, List.tail_cons]

/-- A check passes exactly if all nodes have data and none of the five passes finds a fault. -/
theorem passes_iff_complete : (Validator.streamingServer nodes recovered).Passes ↔
      ∃ first others, nodes = (first :: others).map some ∧
        (∀ d ∈ first :: others, Complete recovered d) ∧
        (first :: others).IsChain HashesAgree ∧
        ∀ d ∈ others, EqualUpTo 2 first.sigFiles d.sigFiles := by
  constructor
  · intro h
    obtain ⟨first, others, rfl⟩ := all_some_of_passes h
    exact ⟨first, others, rfl, faultless_findings.1 (passes_streamingServer.1 h).2⟩
  · rintro ⟨first, others, rfl, h⟩
    exact passes_streamingServer.2 ⟨List.cons_ne_nil _ _, faultless_findings.2 h⟩

/-- **When event streams pass.** The check of event streams comes to a valid report exactly if every
node has data, each with what is asked of a node, every two neighbours agree on their hashes, and
every node agrees with the first on its signature files but for two at the end. A valid report says
what came out for every two neighbours, every node beside the first and every node, so none of them
has been left out for what another lacks. -/
theorem streams_pass_iff (nodes : List (Option StreamData)) (recovered : Bool) :
    ((Validator.streamingServer nodes recovered).Passes ↔
      ∃ first others, nodes = (first :: others).map some ∧
        (∀ d ∈ first :: others, Complete recovered d) ∧
        (first :: others).IsChain HashesAgree ∧
        ∀ d ∈ others, EqualUpTo 2 first.sigFiles d.sigFiles) ∧
    ∀ r, (Validator.streamingServer nodes recovered).report = .ok r → r.isValid = true →
      ∃ first others, nodes = (first :: others).map some ∧ r.infos = notes first others := by
  refine ⟨passes_iff_complete, ?_⟩
  intro r hr hvalid
  obtain ⟨first, others, rfl, hcomplete, hchain, hsigs⟩ := passes_iff_complete.1 ⟨r, hr, hvalid⟩
  refine ⟨first, others, rfl, ?_⟩
  rw [← infos_findings hcomplete hchain hsigs]
  cases hr
  rfl

/-- The first files that a node signed, one in each second. -/
def signedFirst (files : Nat) : List SigFile := ((List.finRange 60).take files).map signedAt

/-- Two nodes that recovered the same events and were not stopped at the same instant. -/
def stoppedApart : List StreamData :=
  [{ finalHash := "F", fileHashes := ["a", "b"], sigFiles := signedFirst 3,
     recoveredMatch := some recoveredEventsMatch, malformed := [] },
   { finalHash := "G", fileHashes := ["a", "c", "d"], sigFiles := signedFirst 2,
     recoveredMatch := some recoveredEventsMatch, malformed := [] }]

theorem streams_pass_iff_stoppedApart :
    ∃ r, (Validator.streamingServer (stoppedApart.map some) true).report = .ok r ∧
      r.isValid = true ∧
      r.infos = ["Nodes 0 and 1 have different final hashes because of trailing divergence in "
          ++ "their last event file",
        "Node 1 signature files diverge from node 0 only in the last 2 files",
        "Node 0 recovered events match the original stream",
        "Node 1 recovered events match the original stream"] := by
  obtain ⟨-, hall⟩ := streams_pass_iff (stoppedApart.map some) true
  have hp : (Validator.streamingServer (stoppedApart.map some) true).Passes := by decide +kernel
  obtain ⟨r, hr, hvalid⟩ := hp
  obtain ⟨first, others, hnodes, hinfos⟩ := hall r hr hvalid
  have hdata : stoppedApart = first :: others :=
    List.map_injective_iff.2 (Option.some_injective _) hnodes
  cases hdata
  exact ⟨r, hr, hvalid, hinfos.trans (by decide +kernel)⟩

end RunAudit.Check.Streams
