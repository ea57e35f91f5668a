import Mathlib.Data.List.Basic
import RunAudit.EventStream.Data

/-!
# How far two lists agree

A comparison goes place by place and stops at the first mismatch. Up to that place the lists are
equal, and the tolerance only decides whether the mismatch counts.

* `firstMismatch_eq_some`, `firstMismatch_eq_none`: where the first mismatch is.
* `compareLists_eq_divergesAt`, `compareLists_eq_identical`, `compareLists_eq_trailingDivergence`:
  when a mismatch counts, when there is no difference, and when one is tolerated.
* `getElem?_eq_of_not_diverges`, `not_diverges_iff`: two lists that do not diverge are equal up to
  the tolerance.
* `EqualUpTo`: lists that differ in length and in items only within a tolerance at their end. From
  list to list the tolerances add up.
-/

namespace RunAudit.EventStream

variable {α : Type} [DecidableEq α] {xs ys : List α} {i p tolerance : Nat}

theorem firstMismatch_eq_none :
    firstMismatch xs ys = none ↔
      ∀ i, i < min xs.length ys.length → xs[i]? = ys[i]? := by
  fun_induction firstMismatch xs ys with
  | case1 x xs ys ih =>
    rw [Option.map_eq_none_iff, ih]
    constructor
    · intro h i hi
      cases i with
      | zero => rfl
      | succ i =>
        simp only [List.length_cons] at hi
        exact h i (by omega)
    · intro h i hi
      have hs := h (i + 1) (by simp only [List.length_cons]; omega)
      simpa using hs
  | case2 x xs y ys hne =>
    refine iff_of_false (by simp) fun h => hne ?_
    have h0 := h 0 (by simp)
    simpa using h0
  | case3 xs ys hnot =>
    refine iff_of_true rfl fun i hi => ?_
    -- one of the two lists is empty
    cases xs with
    | nil => simp at hi
    | cons x xs =>
      cases ys with
      | nil => simp at hi
      | cons y ys => exact absurd rfl (hnot x xs y ys rfl)

/-- What is known of a first mismatch. -/
theorem of_firstMismatch (h : firstMismatch xs ys = some i) :
    i < min xs.length ys.length ∧ xs[i]? ≠ ys[i]? ∧ ∀ j, j < i → xs[j]? = ys[j]? := by
  fun_induction firstMismatch xs ys generalizing i with
  | case1 x xs ys ih =>
    obtain ⟨i, hi, rfl⟩ := Option.map_eq_some_iff.1 h
    obtain ⟨hlt, hne, hbefore⟩ := ih hi
    refine ⟨by simp only [List.length_cons]; omega, by simpa using hne, ?_⟩
    intro j hj
    cases j with
    | zero => rfl
    | succ j => exact hbefore j (by omega)
  | case2 x xs y ys hne =>
    cases h
    exact ⟨by simp, by simpa using hne, fun j hj => absurd hj (Nat.not_lt_zero j)⟩
  | case3 xs ys hnot => cases h

/-- **The first mismatch** is the only place with a mismatch and none before it. -/
theorem firstMismatch_eq_some :
    firstMismatch xs ys = some i ↔
      i < min xs.length ys.length ∧ xs[i]? ≠ ys[i]? ∧ ∀ j, j < i → xs[j]? = ys[j]? := by
  refine ⟨of_firstMismatch, ?_⟩
  -- any other first mismatch would be before this one, or this one before it
  rintro ⟨hlt, hne, hbefore⟩
  cases hm : firstMismatch xs ys with
  | none => exact absurd (firstMismatch_eq_none.1 hm i hlt) hne
  | some k =>
    obtain ⟨-, hne', hbefore'⟩ := of_firstMismatch hm
    rcases Nat.lt_trichotomy k i with hk | rfl | hk
    · exact absurd (hbefore k hk) hne'
    · rfl
    · exact absurd (hbefore' i hk) hne

theorem firstMismatch_comm (xs ys : List α) : firstMismatch xs ys = firstMismatch ys xs := by
  cases hm : firstMismatch ys xs with
  | none =>
    rw [firstMismatch_eq_none] at hm ⊢
    intro i hi
    exact (hm i (by omega)).symm
  | some k =>
    rw [firstMismatch_eq_some] at hm ⊢
    obtain ⟨hlt, hne, hbefore⟩ := hm
    exact ⟨by omega, hne.symm, fun j hj => (hbefore j hj).symm⟩

theorem compareLists_comm (xs ys : List α) (tolerance : Nat) :
    compareLists xs ys tolerance = compareLists ys xs tolerance := by
  have hlength : (xs.length = ys.length) = (ys.length = xs.length) := propext eq_comm
  unfold compareLists
  simp only [firstMismatch_comm xs ys, Nat.min_comm xs.length, hlength]

/-- **When a mismatch counts**: it is the first one, and lies before the tolerated places at the end
of the shorter list. -/
theorem compareLists_eq_divergesAt :
    compareLists xs ys tolerance = .divergesAt i ↔
      firstMismatch xs ys = some i ∧ i + tolerance < min xs.length ys.length := by
  unfold compareLists
  cases hm : firstMismatch xs ys with
  | none =>
    refine iff_of_false ?_ (by simp)
    by_cases hlength : xs.length = ys.length <;> simp [hlength]
  | some k =>
    have hk : k < min xs.length ys.length := (of_firstMismatch hm).1
    simp only [Option.some.injEq]
    split
    · next hle =>
      refine iff_of_false (by simp) ?_
      rintro ⟨rfl, hlt⟩
      omega
    · next hle =>
      rw [Agreement.divergesAt.injEq]
      constructor
      · rintro rfl
        exact ⟨rfl, by omega⟩
      · exact fun h => h.1

/-- **Two lists that do not diverge up to a place** are equal there, unless it is one of the
tolerated places at the end of the shorter list. -/
theorem getElem?_eq_of_not_diverges
    (h : ∀ q, q ≤ p → compareLists xs ys tolerance ≠ .divergesAt q)
    (hp : p + tolerance < min xs.length ys.length) : xs[p]? = ys[p]? := by
  cases hm : firstMismatch xs ys with
  | none => exact firstMismatch_eq_none.1 hm p (by omega)
  | some q =>
    obtain ⟨-, -, hbefore⟩ := of_firstMismatch hm
    rcases Nat.lt_or_ge p q with hq | hq
    · exact hbefore p hq
    · exact absurd (compareLists_eq_divergesAt.2 ⟨hm, by omega⟩) (h q hq)

/-- **Two lists diverge nowhere** exactly if they are equal at all places but the tolerated ones. -/
theorem not_diverges_iff :
    (∀ q, compareLists xs ys tolerance ≠ .divergesAt q) ↔
      ∀ p, p + tolerance < min xs.length ys.length → xs[p]? = ys[p]? := by
  constructor
  · intro h p hp
    exact getElem?_eq_of_not_diverges (fun q _ => h q) hp
  · intro h q hq
    obtain ⟨hm, hlt⟩ := compareLists_eq_divergesAt.1 hq
    obtain ⟨-, hne, -⟩ := of_firstMismatch hm
    exact hne (h q hlt)

theorem compareLists_eq_identical : compareLists xs ys tolerance = .identical ↔ xs = ys := by
  unfold compareLists
  cases hm : firstMismatch xs ys with
  | none =>
    have hequal := firstMismatch_eq_none.1 hm
    by_cases hlength : xs.length = ys.length
    · refine iff_of_true (if_pos hlength) (List.ext_getElem? fun i => ?_)
      rcases Nat.lt_or_ge i xs.length with hi | hi
      · exact hequal i (by omega)
      · rw [List.getElem?_eq_none hi, List.getElem?_eq_none (by omega)]
    · exact iff_of_false (by simp [hlength]) fun h => hlength (congrArg List.length h)
  | some i =>
    obtain ⟨-, hne, -⟩ := of_firstMismatch hm
    refine iff_of_false (fun h => ?_) fun h => hne (by rw [h])
    dsimp only at h
    split at h <;> cases h

/-- **A tolerated difference** is one of lists that are not the same, but are equal at all places but
the tolerated ones. -/
theorem compareLists_eq_trailingDivergence :
    compareLists xs ys tolerance = .trailingDivergence ↔
      xs ≠ ys ∧ ∀ p, p + tolerance < min xs.length ys.length → xs[p]? = ys[p]? := by
  have hequal : compareLists xs ys tolerance = .identical ↔ xs = ys := compareLists_eq_identical
  rw [← not_diverges_iff, Ne, ← hequal]
  cases compareLists xs ys tolerance <;> simp

section UpTo

variable {β : Type} {as bs cs : List β} {s t : Nat}

/-- **Two lists are equal up to a tolerance** if neither is longer than the other by more, and they
are equal at all places but so many at the end of the shorter. -/
structure EqualUpTo (t : Nat) (as bs : List β) : Prop where
  length_le : as.length ≤ bs.length + t
  le_length : bs.length ≤ as.length + t
  getElem?_eq : ∀ p, p + t < min as.length bs.length → as[p]? = bs[p]?

theorem EqualUpTo.refl (t : Nat) (as : List β) : EqualUpTo t as as :=
  ⟨Nat.le_add_right _ _, Nat.le_add_right _ _, fun _ _ => rfl⟩

theorem EqualUpTo.symm (h : EqualUpTo t as bs) : EqualUpTo t bs as :=
  ⟨h.le_length, h.length_le, fun p hp => (h.getElem?_eq p (by omega)).symm⟩

/-- **Tolerances add up.** A place that is far enough from the ends of the outer two lists is far
enough from the end of the one between them. -/
theorem EqualUpTo.trans (h : EqualUpTo s as bs) (h' : EqualUpTo t bs cs) :
    EqualUpTo (s + t) as cs := by
  have hleft := h.length_le
  have hright := h'.le_length
  refine ⟨?_, ?_, ?_⟩
  · have := h'.length_le
    omega
  · have := h.le_length
    omega
  · intro p hp
    have hab : as[p]? = bs[p]? := h.getElem?_eq p (by omega)
    have hbc : bs[p]? = cs[p]? := h'.getElem?_eq p (by omega)
    exact hab.trans hbc

end UpTo

end RunAudit.EventStream
