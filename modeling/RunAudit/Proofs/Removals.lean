import RunAudit.Proofs.Accounting

/-!
# Removals that excuse a missing entity

An entity may be missing on one of two nodes if the last transaction that the other knows of was to
remove it. How far that transaction got is not looked at, so an attempt that failed excuses as well
as a removal that was carried out. The two are told apart here.

* `CarriedOut`, `AttemptedOnly`: what is known of a removal.
* `Removed.carriedOut_iff`: one of the two holds of an entity that counts as removed.
* `removals_recorded`: what is recorded of an entity that is excused.
* `failed_deletion_excused`: that it need not have been removed.
-/

namespace RunAudit.Check.Entities

open Snapshot

variable {m : ExpectedMap} {v : ExpectedValue} {node : Nat}

/-! ### What is known of a removal -/

/-- A transaction that takes its entity out of the map, if it is carried out. -/
def Removing (t : Status) : Prop := t.type = .delete ∨ t.type = .expire

/-- One of the last two transactions that are known of an entity. -/
def Recorded (v : ExpectedValue) (t : Status) : Prop := v.handled = some t ∨ v.history = some t

/-- A removal is recorded as handled. -/
def CarriedOut (v : ExpectedValue) : Prop :=
  ∃ t, Recorded v t ∧ Removing t ∧ t.state = .handled

/-- The last transaction was to remove the entity but did not come to be handled, and no removal was
handled before it. -/
def AttemptedOnly (v : ExpectedValue) : Prop :=
  ∃ t, v.handled.or v.history = some t ∧ Removing t ∧ t.state ≠ .handled ∧
    ∀ u, v.history = some u → Removing u → u.state ≠ .handled

theorem removed_iff_last : Removed v ↔ ∃ t, v.handled.or v.history = some t ∧ Removing t := by
  unfold Removed Removing ExpectedValue.lastTransaction
  cases v.handled.or v.history <;> simp

theorem Recorded.of_last {t : Status} (h : v.handled.or v.history = some t) : Recorded v t := by
  rcases Option.or_eq_some_iff.1 h with h | ⟨-, h⟩
  · exact .inl h
  · exact .inr h

/-- Of an entity that counts as removed, the removal was carried out or only attempted. -/
theorem Removed.carriedOut_iff (h : Removed v) : CarriedOut v ↔ ¬ AttemptedOnly v := by
  obtain ⟨last, hlast, hremoving⟩ := removed_iff_last.1 h
  constructor
  · rintro ⟨t, ht, htr, hstate⟩ ⟨u, hu, -, hnot, hbefore⟩
    rcases ht with ht | ht
    · -- what was handled last is what the entity was judged by
      rw [ht, Option.some_or, Option.some.injEq] at hu
      exact hnot (hu ▸ hstate)
    · exact hbefore t ht htr hstate
  · intro h
    by_cases hstate : last.state = .handled
    · exact ⟨last, .of_last hlast, hremoving, hstate⟩
    · by_contra hnone
      exact h ⟨last, hlast, hremoving, hstate,
        fun u hu hur hus => hnone ⟨u, .inr hu, hur, hus⟩⟩

/-! ### Excused entities -/

/-- A rejection needs a removal before it. -/
theorem faultless_rejectionFindings :
    Faultless (rejectionFindings node m) ↔
      ∀ key v, m.get? key = some v → ¬ Unexplained v := by
  unfold Faultless rejectionFindings
  rw [List.filterMap_filterMap, List.filterMap_eq_nil_iff]
  simp only [Prod.forall, ← Keyed.get?_eq_some]
  refine forall_congr' fun key => forall_congr' fun v => forall_congr' fun _ => ?_
  rw [← isUnexplainedRejection_iff]
  cases isUnexplainedRejection v <;> simp [Finding.error?]

/-- **What is recorded of an excused entity.** If a report is valid and exactly one of the first node
and another has an entity, then the last transaction of the entity was to remove it; if the one
handled last was rejected, then the one before it was to remove it. A removal was carried out unless
all that is known of it is an attempt. -/
theorem removals_recorded (maps : List (Option ExpectedMap))
    (h : (Validator.lifecycle maps).Passes) :
    ∀ i, i < maps.length →
      ∃ first other, maps[0]? = some (some first) ∧ maps[i]? = some (some other) ∧
        ∀ key v, HeldByOne first other key v →
          Removed v ∧
          (∀ t, v.handled = some t → t.state = .handleRejected →
            ∃ u, v.history = some u ∧ Removing u) ∧
          (CarriedOut v ↔ ¬ AttemptedOnly v) := by
  intro i hi
  have hf : Faultless (findings maps) :=
    (Audit.passes_done _ _ _).1 ((Validator.passes_iff _).1 h)
  have hne : maps ≠ [] := List.ne_nil_of_length_pos (Nat.zero_lt_of_lt hi)
  obtain ⟨first, hfirst, hall⟩ := compared_of_faultless hf hne
  obtain ⟨other, hother, hrejections, hcompared⟩ := hall i hi
  refine ⟨first, other, hfirst, hother, ?_⟩
  intro key v hv
  have hremoved : Removed v := (wasRemoved_iff v).1 (hcompared.removed key v hv)
  have hnot : ¬ Unexplained v := by
    rcases hv with ⟨hv, -⟩ | ⟨hv, -⟩
    · -- the first node is one of all nodes
      obtain ⟨m, hm, hrejections, -⟩ := hall 0 (List.length_pos_iff.2 hne)
      obtain rfl : first = m := by simpa using hfirst.symm.trans hm
      exact faultless_rejectionFindings.1 hrejections key v hv
    · exact faultless_rejectionFindings.1 hrejections key v hv
  refine ⟨hremoved, ?_, hremoved.carriedOut_iff⟩
  intro t ht hrejected
  by_contra hnone
  exact hnot ⟨⟨t, ht, hrejected⟩, fun ⟨u, hu, hur⟩ => hnone ⟨u, hu, hur⟩⟩

theorem removals_recorded_threeReplicas :
    (Validator.lifecycle threeReplicas).Passes ∧
      ∃ first, threeReplicas[0]? = some (some first) ∧
        HeldByOne first fullerReplica ⟨0, 0, 8⟩ deletedEntity ∧ Removed deletedEntity := by
  have hp : (Validator.lifecycle threeReplicas).Passes := by decide +kernel
  have hsecond : threeReplicas[1]? = some (some fullerReplica) := rfl
  obtain ⟨first, other, hfirst, hother, h⟩ :=
    removals_recorded threeReplicas hp 1 (by decide)
  rw [hsecond, Option.some.injEq, Option.some.injEq] at hother
  subst hother
  have hheld : HeldByOne first fullerReplica ⟨0, 0, 8⟩ deletedEntity := by
    cases hfirst
    exact .inr ⟨by decide +kernel, by decide +kernel⟩
  exact ⟨hp, first, hfirst, hheld, (h _ _ hheld).1⟩

/-- An entity that could not be deleted. -/
def undeletedEntity : ExpectedValue :=
  { entityType := .file, handled := some ⟨.handleFailed, .delete⟩ }

/-- Two nodes, of which only the first has the entity that could not be deleted. -/
def unevenReplicas : List (Option ExpectedMap) :=
  [some (.ofList [(⟨0, 0, 4⟩, undeletedEntity)]), some (.ofList [])]

/-- **An entity is excused for a deletion that failed.** -/
theorem failed_deletion_excused :
    (Validator.lifecycle unevenReplicas).Passes ∧
      ∃ first other, unevenReplicas[0]? = some (some first) ∧
        unevenReplicas[1]? = some (some other) ∧
        HeldByOne first other ⟨0, 0, 4⟩ undeletedEntity ∧ ¬ CarriedOut undeletedEntity := by
  refine ⟨by decide +kernel, _, _, rfl, rfl, .inl ⟨by decide +kernel, by decide +kernel⟩, ?_⟩
  rintro ⟨t, ht, -, hstate⟩
  rcases ht with ht | ht <;> cases ht
  cases hstate

end RunAudit.Check.Entities
