import Mathlib.Data.List.Basic
import Mathlib.Data.Nat.Init
import RunAudit.Proofs.Agreement
import RunAudit.Proofs.Outcomes

/-!
# Forks of event streams

The check of event streams compares the file hashes of neighbouring nodes only, and only if their
final hashes differ. Agreement is handed on from neighbour to neighbour, place by place, as far as
the streams in between reach. So two nodes that are further apart may have forked after all, but
only behind a node whose stream ended at the fork or before, or across two neighbours that have one
final hash for different files.

* `NeighboursAgree`: what the check asks of two neighbours.
* `passes_streamingServer`: the check passes exactly if it finds nothing wrong.
* `wellFormed_of_passes`: what a check that passes says of all nodes and of all neighbours.
* `handed_on`: agreement at one place, along the nodes from one to another.
* `forks_are_bridged`: where two nodes that forked have gone unnoticed.
-/

namespace RunAudit.Check.Streams

open EventStream

variable {nodes : List (Option StreamData)} {recovered : Bool} {node i j p : Nat}
  {a b : StreamData}

/-- Two neighbours have one final hash, or their file hashes differ only at their end. -/
def NeighboursAgree (a b : StreamData) : Prop :=
  a.finalHash = b.finalHash ∨
    compareLists a.fileHashes b.fileHashes hashTolerance = .trailingDivergence

theorem faultless_eventFindings {d : Option StreamData} :
    Faultless (eventFindings node d) ↔
      ∃ a, d = some a ∧ a.fileHashes ≠ [] ∧ a.finalHash ≠ "" := by
  cases d with
  | none => simp [eventFindings]
  | some a =>
    have hempty : a.finalHash ≠ "" ↔ a.finalHash.isEmpty = false := by simp
    simp only [eventFindings, Option.some.injEq, exists_eq_left', hempty]
    generalize a.finalHash.isEmpty = empty
    cases hf : a.fileHashes <;> cases empty <;> simp

theorem faultless_pairFindings (ha : a.finalHash ≠ "") (hb : b.finalHash ≠ "") :
    Faultless (pairFindings node a b) ↔ NeighboursAgree a b := by
  have hea : a.finalHash.isEmpty = false := by simpa using ha
  have heb : b.finalHash.isEmpty = false := by simpa using hb
  unfold pairFindings NeighboursAgree
  rw [hea, heb, Bool.false_or, Bool.false_or]
  by_cases hfinal : a.finalHash = b.finalHash
  · simp [hfinal]
  · rw [if_neg (by simpa using hfinal), or_iff_right hfinal]
    cases compareLists a.fileHashes b.fileHashes hashTolerance <;> simp

/-- Each node is compared with the one before it. -/
theorem faultless_hashFindings :
    Faultless (hashFindings node nodes) ↔
      ∀ k a b, nodes[k]? = some (some a) → nodes[k + 1]? = some (some b) →
        Faultless (pairFindings (node + k) a b) := by
  fun_induction hashFindings node nodes with
  | case1 node previous current later ih =>
    rw [faultless_append, ih]
    constructor
    · rintro ⟨hfirst, hlater⟩ k a b ha hb
      cases k with
      | zero =>
        cases ha
        cases hb
        exact hfirst
      | succ k =>
        have hk := hlater k a b ha hb
        rwa [Nat.add_assoc, Nat.add_comm 1 k] at hk
    · intro h
      refine ⟨h 0 previous current rfl rfl, ?_⟩
      intro k a b ha hb
      rw [Nat.add_assoc, Nat.add_comm 1 k]
      exact h (k + 1) a b ha hb
  | case2 node first later hnot ih =>
    rw [ih]
    constructor
    · intro hlater k a b ha hb
      cases k with
      | zero =>
        -- the first two nodes do not both have data
        cases later with
        | nil => cases hb
        | cons second later =>
          cases ha
          cases hb
          exact absurd rfl (hnot a b later rfl)
      | succ k =>
        have hk := hlater k a b ha hb
        rwa [Nat.add_assoc, Nat.add_comm 1 k] at hk
    · intro h k a b ha hb
      rw [Nat.add_assoc, Nat.add_comm 1 k]
      exact h (k + 1) a b ha hb
  | case3 node => simp

/-- **The check of event streams passes** exactly if there are nodes and nothing is found wrong with
any of them. -/
theorem passes_streamingServer :
    (Validator.streamingServer nodes recovered).Passes ↔
      nodes ≠ [] ∧ Faultless (findings recovered nodes) := by
  rw [Validator.passes_iff]
  change ((audit recovered nodes).within _).Passes ↔ _
  rw [Audit.passes_within, audit]
  cases nodes with
  | nil => exact iff_of_false (Audit.not_passes_of_error rfl) fun h => h.1 rfl
  | cons first others => simp

/-- **What a check that passes says** of all nodes and of all neighbours. -/
theorem wellFormed_of_passes (h : (Validator.streamingServer nodes recovered).Passes) :
    (∀ k, k < nodes.length → ∃ a, nodes[k]? = some (some a)) ∧
      ∀ k a b, nodes[k]? = some (some a) → nodes[k + 1]? = some (some b) → NeighboursAgree a b := by
  obtain ⟨-, hfindings⟩ := passes_streamingServer.1 h
  simp only [findings, faultless_append, faultless_mapIdx, faultless_eventFindings,
    faultless_hashFindings] at hfindings
  obtain ⟨⟨⟨⟨hevents, hhashes⟩, -⟩, -⟩, -⟩ := hfindings
  -- neighbours are compared only if both have final hashes, which every node has
  have hdata : ∀ (k : Nat) (a : StreamData), nodes[k]? = some (some a) → a.finalHash ≠ "" := by
    intro k a hk
    obtain ⟨a', ha', -, hfinal⟩ := hevents k (some a) hk
    cases ha'
    exact hfinal
  constructor
  · intro k hk
    have hget : nodes[k]? = some nodes[k] := List.getElem?_eq_getElem hk
    obtain ⟨a, ha, -⟩ := hevents k _ hget
    exact ⟨a, ha ▸ hget⟩
  · intro k a b ha hb
    exact (faultless_pairFindings (hdata k a ha) (hdata (k + 1) b hb)).1 (hhashes k a b ha hb)

/-- Neighbours of which both streams reach beyond a place, and which would not hide a fork up to
there behind one final hash, are equal at that place. -/
theorem equal_at (h : NeighboursAgree a b) (ha : p + 1 < a.fileHashes.length)
    (hb : p + 1 < b.fileHashes.length)
    (hshared : a.finalHash = b.finalHash → ∀ q, q ≤ p →
      compareLists a.fileHashes b.fileHashes hashTolerance ≠ .divergesAt q) :
    a.fileHashes[p]? = b.fileHashes[p]? := by
  have hlong : p + hashTolerance < min a.fileHashes.length b.fileHashes.length := by
    unfold hashTolerance
    omega
  refine getElem?_eq_of_not_diverges ?_ hlong
  intro q hq
  rcases h with hfinal | htrailing
  · exact hshared hfinal q hq
  · rw [htrailing]
    exact nofun

/-- **Agreement at a place is handed on** along the nodes from one to another. -/
theorem handed_on (hall : ∀ k, k < nodes.length → ∃ a, nodes[k]? = some (some a))
    (hneighbours : ∀ k a b, nodes[k]? = some (some a) → nodes[k + 1]? = some (some b) →
      NeighboursAgree a b)
    (hlong : ∀ k d, i ≤ k → k ≤ j → nodes[k]? = some (some d) → p + 1 < d.fileHashes.length)
    (hshared : ∀ k d e, i ≤ k → k < j → nodes[k]? = some (some d) →
      nodes[k + 1]? = some (some e) → d.finalHash = e.finalHash → ∀ q, q ≤ p →
      compareLists d.fileHashes e.fileHashes hashTolerance ≠ .divergesAt q)
    (hij : i ≤ j) (ha : nodes[i]? = some (some a)) (hb : nodes[j]? = some (some b)) :
    a.fileHashes[p]? = b.fileHashes[p]? := by
  -- along the nodes behind `i`, each of which has a stream to compare with the next
  induction j, hij using Nat.le_induction generalizing b with
  | base =>
    rw [ha] at hb
    cases hb
    rfl
  | succ j hij ih =>
    obtain ⟨hj, -⟩ := List.getElem?_eq_some_iff.1 hb
    obtain ⟨c, hc⟩ := hall j (by omega)
    have hac : a.fileHashes[p]? = c.fileHashes[p]? :=
      ih (fun k d hik hkj => hlong k d hik (by omega))
        (fun k d e hik hkj => hshared k d e hik (by omega)) hc
    have hcb : c.fileHashes[p]? = b.fileHashes[p]? :=
      equal_at (hneighbours j c b hc hb) (hlong j c hij (by omega) hc)
        (hlong (j + 1) b (by omega) (by omega) hb) (hshared j c b hij (by omega) hc hb)
    exact hac.trans hcb

/-- What keeps a fork at a place between two nodes from being noticed: a node in between of which
the stream ends there or before, or two neighbours that have one final hash though they forked
there or before. -/
def Bridged (nodes : List (Option StreamData)) (i j p : Nat) : Prop :=
  (∃ k d, i < k ∧ k < j ∧ nodes[k]? = some (some d) ∧ d.fileHashes.length ≤ p + 1) ∨
    ∃ k d e, i ≤ k ∧ k < j ∧ nodes[k]? = some (some d) ∧ nodes[k + 1]? = some (some e) ∧
      d.finalHash = e.finalHash ∧
      ∃ q, q ≤ p ∧ compareLists d.fileHashes e.fileHashes hashTolerance = .divergesAt q

/-- A fork between two nodes, the first of them before the second. -/
theorem bridged_of_le (hall : ∀ k, k < nodes.length → ∃ a, nodes[k]? = some (some a))
    (hneighbours : ∀ k a b, nodes[k]? = some (some a) → nodes[k + 1]? = some (some b) →
      NeighboursAgree a b)
    (hij : i ≤ j) (ha : nodes[i]? = some (some a)) (hb : nodes[j]? = some (some b))
    (hfork : compareLists a.fileHashes b.fileHashes hashTolerance = .divergesAt p) :
    Bridged nodes i j p := by
  obtain ⟨hm, hlt⟩ := compareLists_eq_divergesAt.1 hfork
  obtain ⟨-, hne, -⟩ := firstMismatch_eq_some.1 hm
  unfold hashTolerance at hlt
  -- with nothing to bridge it, agreement would be handed on at the very place of the fork
  by_contra hnot
  obtain ⟨hshort, hshared⟩ := not_or.1 hnot
  refine hne (handed_on hall hneighbours ?_ ?_ hij ha hb)
  · -- the two nodes themselves reach beyond the fork
    intro k d hik hkj hd
    rcases Nat.eq_or_lt_of_le hik with rfl | hik
    · rw [ha] at hd
      cases hd
      omega
    · rcases Nat.eq_or_lt_of_le hkj with rfl | hkj
      · rw [hb] at hd
        cases hd
        omega
      · by_contra hd'
        exact hshort ⟨k, d, hik, hkj, hd, by omega⟩
  · intro k d e hik hkj hd he hfinal q hq hfork'
    exact hshared ⟨k, d, e, hik, hkj, hd, he, hfinal, q, hq, hfork'⟩

/-- **Where a fork goes unnoticed.** If the check of event streams passes, every node has left a
stream. Of two nodes, adjacent or not, the streams have forked at some place before the last that
they share only if that fork is bridged by the nodes from one to the other. -/
theorem forks_are_bridged (h : (Validator.streamingServer nodes recovered).Passes) :
    ∀ i j, i < nodes.length → j < nodes.length →
      ∃ a b, nodes[i]? = some (some a) ∧ nodes[j]? = some (some b) ∧
        ∀ p, compareLists a.fileHashes b.fileHashes hashTolerance = .divergesAt p →
          Bridged nodes (min i j) (max i j) p := by
  intro i j hi hj
  obtain ⟨hall, hneighbours⟩ := wellFormed_of_passes h
  obtain ⟨a, ha⟩ := hall i hi
  obtain ⟨b, hb⟩ := hall j hj
  refine ⟨a, b, ha, hb, ?_⟩
  intro p hfork
  rcases Nat.le_total i j with hij | hij
  · rw [Nat.min_eq_left hij, Nat.max_eq_right hij]
    exact bridged_of_le hall hneighbours hij ha hb hfork
  · rw [Nat.min_eq_right hij, Nat.max_eq_left hij]
    rw [compareLists_comm] at hfork
    exact bridged_of_le hall hneighbours hij hb ha hfork

/-- A node that left nothing but hashes. -/
def hashesOnly (finalHash : String) (fileHashes : List String) : StreamData :=
  .ofLists finalHash fileHashes [] none

/-- Three nodes. The first and the last forked at once, and the one in between hardly wrote. -/
def shortBetween : List (Option StreamData) :=
  [some (hashesOnly "A" ["a", "b", "c"]), some (hashesOnly "B" ["a"]),
   some (hashesOnly "C" ["x", "b", "c"])]

/-- Three nodes. The first two forked at once, but their final hashes do not tell. -/
def sharedFinalHash : List (Option StreamData) :=
  [some (hashesOnly "A" ["a", "b", "c"]), some (hashesOnly "A" ["x", "b", "c"]),
   some (hashesOnly "B" ["x", "b", "d"])]

theorem forks_are_bridged_shortBetween :
    (Validator.streamingServer shortBetween false).Passes ∧ Bridged shortBetween 0 2 0 := by
  have hp : (Validator.streamingServer shortBetween false).Passes := by decide +kernel
  obtain ⟨a, b, ha, hb, h⟩ := forks_are_bridged hp 0 2 (by decide) (by decide)
  cases ha
  cases hb
  exact ⟨hp, h 0 (by decide +kernel)⟩

/-- Two nodes with different final hashes can have forked before the last place that they share
although the check passes. Neither way to bridge a fork can be left out. -/
theorem neighbours_miss_forks :
    ((Validator.streamingServer shortBetween false).Passes ∧
      ∃ a b, shortBetween[0]? = some (some a) ∧ shortBetween[2]? = some (some b) ∧
        a.finalHash ≠ b.finalHash ∧
        compareLists a.fileHashes b.fileHashes hashTolerance = .divergesAt 0) ∧
      (Validator.streamingServer sharedFinalHash false).Passes ∧
      ∃ a b, sharedFinalHash[0]? = some (some a) ∧ sharedFinalHash[2]? = some (some b) ∧
        a.finalHash ≠ b.finalHash ∧
        compareLists a.fileHashes b.fileHashes hashTolerance = .divergesAt 0 := by
  refine ⟨⟨by decide +kernel, ?_⟩, by decide +kernel, ?_⟩
  · exact ⟨_, _, rfl, rfl, by decide +kernel, by decide +kernel⟩
  · exact ⟨_, _, rfl, rfl, by decide +kernel, by decide +kernel⟩

end RunAudit.Check.Streams
