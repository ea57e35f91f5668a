import Mathlib.Data.List.Basic
import RunAudit.Check.Streams
import RunAudit.Proofs.Agreement

/-!
# Where two lists diverge

A comparison of two lists comes to one of three results, and each is a statement about the lists
alone: they are the same, they differ at a place that counts, or they differ but not at such a
place. The place that is given is one of both lists, so that a check can name the two items there.

* `FirstDifference`: the first place at which two lists differ.
* `take_eq_take_iff`, `not_diverges_iff_take`: lists that do not diverge have one beginning.
* `pairFindings_divergesAt`, `sigFindings_divergesAt`: what is said of a place names an item of
  either list.
* `comparison_exact`: the three results, and what follows for exchanged lists and other tolerances.
-/

namespace RunAudit.EventStream

section Lists

variable {α : Type} {xs ys : List α} {i n tolerance : Nat}

/-- **The first place at which two lists differ**: both have an item there, not the same one, and
before it they are equal. -/
def FirstDifference (xs ys : List α) (i : Nat) : Prop :=
  (∃ x y, xs[i]? = some x ∧ ys[i]? = some y ∧ x ≠ y) ∧ xs.take i = ys.take i

/-- Beginnings of one length are equal exactly if the lists are so at each of their places. -/
theorem take_eq_take_iff : xs.take n = ys.take n ↔ ∀ p, p < n → xs[p]? = ys[p]? := by
  constructor
  · intro h p hp
    have hxs : (xs.take n)[p]? = xs[p]? := List.getElem?_take_of_lt hp
    have hys : (ys.take n)[p]? = ys[p]? := List.getElem?_take_of_lt hp
    rw [← hxs, h, hys]
  · intro h
    apply List.ext_getElem?
    intro p
    rw [List.getElem?_take, List.getElem?_take]
    split
    · next hp => exact h p hp
    · rfl

theorem FirstDifference.lt_length (h : FirstDifference xs ys i) :
    i < xs.length ∧ i < ys.length := by
  obtain ⟨⟨x, y, hx, hy, -⟩, -⟩ := h
  exact ⟨(List.getElem?_eq_some_iff.1 hx).1, (List.getElem?_eq_some_iff.1 hy).1⟩

variable [DecidableEq α]

theorem firstMismatch_iff_firstDifference :
    firstMismatch xs ys = some i ↔ FirstDifference xs ys i := by
  rw [firstMismatch_eq_some]
  unfold FirstDifference
  rw [take_eq_take_iff]
  constructor
  · rintro ⟨hlt, hne, hbefore⟩
    have hx : xs[i]? = some xs[i] := List.getElem?_eq_getElem (by omega)
    have hy : ys[i]? = some ys[i] := List.getElem?_eq_getElem (by omega)
    refine ⟨⟨xs[i], ys[i], hx, hy, ?_⟩, hbefore⟩
    intro heq
    rw [hx, hy, heq] at hne
    exact hne rfl
  · rintro ⟨⟨x, y, hx, hy, hne⟩, hbefore⟩
    have hlx := (List.getElem?_eq_some_iff.1 hx).1
    have hly := (List.getElem?_eq_some_iff.1 hy).1
    refine ⟨by omega, ?_, hbefore⟩
    rw [hx, hy]
    exact fun heq => hne (Option.some.inj heq)

theorem compareLists_eq_divergesAt_iff :
    compareLists xs ys tolerance = .divergesAt i ↔
      FirstDifference xs ys i ∧ i + tolerance < min xs.length ys.length := by
  rw [compareLists_eq_divergesAt, firstMismatch_iff_firstDifference]

/-- **Two lists diverge nowhere** exactly if they begin alike, up to the tolerated places at the end
of the shorter. -/
theorem not_diverges_iff_take :
    (∀ q, compareLists xs ys tolerance ≠ .divergesAt q) ↔
      xs.take (min xs.length ys.length - tolerance) =
        ys.take (min xs.length ys.length - tolerance) := by
  rw [not_diverges_iff, take_eq_take_iff]
  constructor
  · intro h p hp
    exact h p (by omega)
  · intro h p hp
    exact h p (by omega)

/-- **A tolerated difference**: the lists are not the same, and no difference counts. -/
theorem compareLists_eq_trailingDivergence_iff :
    compareLists xs ys tolerance = .trailingDivergence ↔
      xs ≠ ys ∧ ∀ q, FirstDifference xs ys q → min xs.length ys.length ≤ q + tolerance := by
  rw [compareLists_eq_trailingDivergence, ← not_diverges_iff]
  refine and_congr_right fun _ => forall_congr' fun q => ?_
  rw [Ne, compareLists_eq_divergesAt_iff, not_and, Nat.not_lt]

/-- **A larger tolerance** leaves fewer places that count. -/
theorem divergesAt_of_le {s t : Nat} (hst : s ≤ t) (h : compareLists xs ys t = .divergesAt i) :
    compareLists xs ys s = .divergesAt i := by
  rw [compareLists_eq_divergesAt] at h ⊢
  exact ⟨h.1, by omega⟩

end Lists

end RunAudit.EventStream

namespace RunAudit.Check.Streams

open EventStream

variable {node i : Nat} {a b : StreamData}

/-- **What is said of two neighbours that diverge** names the hash of either at that place. -/
theorem pairFindings_divergesAt (ha : a.finalHash ≠ "") (hb : b.finalHash ≠ "")
    (hne : a.finalHash ≠ b.finalHash)
    (h : compareLists a.fileHashes b.fileHashes hashTolerance = .divergesAt i) :
    ∃ x y, a.fileHashes[i]? = some x ∧ b.fileHashes[i]? = some y ∧ x ≠ y ∧
      pairFindings node a b =
        [.error (s!"Nodes {node - 1} and {node} have different event file hashes at "
          ++ s!"position {i}: {x} vs {y}")] := by
  obtain ⟨⟨⟨x, y, hx, hy, hxy⟩, -⟩, -⟩ := compareLists_eq_divergesAt_iff.1 h
  refine ⟨x, y, hx, hy, hxy, ?_⟩
  have hjudged : ¬ (a.finalHash.isEmpty || b.finalHash.isEmpty
      || a.finalHash == b.finalHash) = true := by
    simp [ha, hb, hne]
  simp only [pairFindings, if_neg hjudged, h, List.getD_eq_getElem?_getD, hx, hy, Option.getD_some]

/-- **What is said of a node that diverges from the first** names the signature file of either at
that place. -/
theorem sigFindings_divergesAt
    (hshort : max b.sigFiles.length a.sigFiles.length ≤
      min b.sigFiles.length a.sigFiles.length + sigTolerance)
    (h : compareLists a.sigFiles b.sigFiles sigTolerance = .divergesAt i) :
    ∃ x y, a.sigFiles[i]? = some x ∧ b.sigFiles[i]? = some y ∧ x ≠ y ∧
      sigFindings a node (some b) =
        [.error (s!"Node {node} signature file {y.name} does not match "
          ++ s!"node 0 signature file {x.name}")] := by
  obtain ⟨⟨⟨x, y, hx, hy, hxy⟩, -⟩, -⟩ := compareLists_eq_divergesAt_iff.1 h
  refine ⟨x, y, hx, hy, hxy, ?_⟩
  have hjudged : ¬ sigTolerance < max b.sigFiles.length a.sigFiles.length
      - min b.sigFiles.length a.sigFiles.length := by omega
  simp only [sigFindings, if_neg hjudged, h, sigName, hx, hy, Option.map_some, Option.getD_some]

/-- **A comparison of two lists, exactly.** It says that they are the same if they are; that they
diverge at the first place at which they differ, if that is before the tolerated places at the end
of the shorter list; and otherwise that the difference is tolerated. So it does not matter which
list is the first, a larger tolerance makes nothing diverge, and lists that do not diverge begin
alike up to the tolerated places. A place at which lists diverge is one of both, so what the two
checks say of it names an item of either. -/
theorem comparison_exact {α : Type} [DecidableEq α] (left right : List α) (tolerance : Nat) :
    (compareLists left right tolerance = .identical ↔ left = right) ∧
    (∀ i, compareLists left right tolerance = .divergesAt i ↔
      FirstDifference left right i ∧ i + tolerance < min left.length right.length) ∧
    (compareLists left right tolerance = .trailingDivergence ↔ left ≠ right ∧
      ∀ i, FirstDifference left right i → min left.length right.length ≤ i + tolerance) ∧
    compareLists right left tolerance = compareLists left right tolerance ∧
    (∀ larger i, tolerance ≤ larger → compareLists left right larger = .divergesAt i →
      compareLists left right tolerance = .divergesAt i) ∧
    ((∀ i, compareLists left right tolerance ≠ .divergesAt i) ↔
      left.take (min left.length right.length - tolerance) =
        right.take (min left.length right.length - tolerance)) ∧
    (∀ i, compareLists left right tolerance = .divergesAt i →
      i < left.length ∧ i < right.length) ∧
    (∀ node i a b, a.finalHash ≠ "" → b.finalHash ≠ "" → a.finalHash ≠ b.finalHash →
      compareLists a.fileHashes b.fileHashes hashTolerance = .divergesAt i →
      ∃ x y, a.fileHashes[i]? = some x ∧ b.fileHashes[i]? = some y ∧ x ≠ y ∧
        pairFindings node a b =
          [.error (s!"Nodes {node - 1} and {node} have different event file hashes at "
            ++ s!"position {i}: {x} vs {y}")]) ∧
    ∀ node i a b, max b.sigFiles.length a.sigFiles.length ≤
        min b.sigFiles.length a.sigFiles.length + sigTolerance →
      compareLists a.sigFiles b.sigFiles sigTolerance = .divergesAt i →
      ∃ x y, a.sigFiles[i]? = some x ∧ b.sigFiles[i]? = some y ∧ x ≠ y ∧
        sigFindings a node (some b) =
          [.error (s!"Node {node} signature file {y.name} does not match "
            ++ s!"node 0 signature file {x.name}")] := by
  refine ⟨compareLists_eq_identical, fun i => compareLists_eq_divergesAt_iff,
    compareLists_eq_trailingDivergence_iff, compareLists_comm right left tolerance,
    fun larger i hle h => divergesAt_of_le hle h, not_diverges_iff_take, ?_, ?_, ?_⟩
  · intro i h
    exact (compareLists_eq_divergesAt_iff.1 h).1.lt_length
  · intro node i a b ha hb hne h
    exact pairFindings_divergesAt ha hb hne h
  · intro node i a b hshort h
    exact sigFindings_divergesAt hshort h

end RunAudit.Check.Streams
