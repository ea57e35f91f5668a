import Mathlib.Data.List.Basic
import RunAudit.Proofs.Outcomes

/-!
# Agreement of all replicas

The first node is the baseline: each other node is compared with it, and no two others with each
other. Entities that are gone on one side are judged by what the other side still has of them.
Together this makes every two nodes agree on every entity that has not been removed.

* `SameView`: two nodes see the same of an entity.
* `Compared`: two maps are not at odds; `faultless_findings` says it of each node and the first.
* `Carries`: a map has all entities that another has and that have not been removed.
* `Compared.symm`, `Compared.carries`: what a comparison says in both directions.
* `replicas_agree`: a valid report means that every two nodes agree.
-/

namespace RunAudit.Check.Entities

open Snapshot

variable {key : EntityKey} {v w expected actual : ExpectedValue} {m m' m'' baseline : ExpectedMap}
  {node : Nat} {maps : List (Option ExpectedMap)}

/-- Two values with equal fields, apart from what was submitted last. -/
structure SameView (v w : ExpectedValue) : Prop where
  entityType : v.entityType = w.entityType
  isErrored : v.isErrored = w.isErrored
  hash : v.hash = w.hash
  handled : v.handled = w.handled
  history : v.history = w.history

theorem SameView.symm (h : SameView v w) : SameView w v :=
  ⟨h.1.symm, h.2.symm, h.3.symm, h.4.symm, h.5.symm⟩

theorem SameView.trans {u : ExpectedValue} (h : SameView u v) (h' : SameView v w) :
    SameView u w :=
  ⟨h.1.trans h'.1, h.2.trans h'.2, h.3.trans h'.3, h.4.trans h'.4, h.5.trans h'.5⟩

/-- Whether an entity was removed is seen in what was handled. -/
theorem SameView.wasRemoved (h : SameView v w) : wasRemoved v = wasRemoved w := by
  unfold Entities.wasRemoved ExpectedValue.lastTransaction
  rw [h.handled, h.history]

theorem wasRemoved_eq_false (v : ExpectedValue) :
    wasRemoved v = false ↔
      v.lastTransaction ≠ some .delete ∧ v.lastTransaction ≠ some .expire := by
  unfold wasRemoved
  cases v.lastTransaction with
  | none => simp
  | some t => cases t <;> simp [TransactionType.removesEntity]

/-! ### A comparison with the baseline -/

/-- Only entities that were removed may be gone. -/
theorem faultless_missingFindings (presentNode missingNode : Nat) :
    Faultless (missingFindings presentNode m missingNode m') ↔
      ∀ key v, m.get? key = some v → m'.get? key = none → wasRemoved v = true := by
  have hlost : ((lacking m m').partition fun e => wasRemoved e.2).2 = [] ↔
      ∀ key v, m.get? key = some v → m'.get? key = none → wasRemoved v = true := by
    rw [List.partition_eq_filter_filter, List.filter_eq_nil_iff]
    unfold lacking Keyed.contains
    constructor
    · intro h key v hv hn
      have he : (key, v) ∈ m.entries := Keyed.get?_eq_some.1 hv
      have hm := h (key, v) (List.mem_filter.2 ⟨he, by simp [hn]⟩)
      simpa using hm
    · rintro h ⟨key, v⟩ he
      obtain ⟨he, hn⟩ := List.mem_filter.1 he
      have hr := h key v (Keyed.get?_eq_some.2 he) (by simpa using hn)
      simp [hr]
  rw [← hlost]
  unfold missingFindings
  split
  next removed lost hp =>
    have hl : ((lacking m m').partition fun e => wasRemoved e.2).2 = lost := congrArg Prod.snd hp
    rw [hl, faultless_append]
    cases removed <;> cases lost <;> simp

/-- No field may differ. -/
theorem faultless_fieldFindings :
    Faultless (fieldFindings key expected node actual) ↔ SameView expected actual := by
  have hall : Faultless (fieldFindings key expected node actual) ↔
      ∀ f ∈ comparedFields, f.2.1 expected actual = true := by
    unfold Faultless fieldFindings
    rw [List.filterMap_filterMap, List.filterMap_eq_nil_iff]
    refine forall_congr' fun f => forall_congr' fun _ => ?_
    cases hs : f.2.1 expected actual <;> simp [hs, Finding.error?]
  rw [hall]
  constructor
  · intro h
    -- one equation for each row of the table
    simp only [comparedFields, List.forall_mem_cons, decide_eq_true_eq] at h
    obtain ⟨htype, herrored, hhash, hhandled, hhistory, -⟩ := h
    exact ⟨htype, herrored, hhash, hhandled, hhistory⟩
  · intro h
    simp [comparedFields, h.entityType, h.isErrored, h.hash, h.handled, h.history]

/-- The entities that both nodes have. -/
theorem faultless_sharedFindings :
    Faultless (sharedFindings baseline node m) ↔
      ∀ key v w, baseline.get? key = some v → m.get? key = some w → SameView v w := by
  have herrored : ∀ key v w, Faultless (erroredFindings key v node w) := by
    intro key v w
    unfold erroredFindings
    split <;> simp
  unfold sharedFindings
  rw [faultless_flatMap]
  constructor
  · intro h key v w hv hw
    have hf := h (key, v) (Keyed.get?_eq_some.1 hv)
    simp only [hw, faultless_append] at hf
    exact faultless_fieldFindings.1 hf.1
  · rintro h ⟨key, v⟩ he
    cases hw : m.get? key with
    | none => simp [hw]
    | some w =>
      simp only [hw, faultless_append]
      exact ⟨faultless_fieldFindings.2 (h key v w (Keyed.get?_eq_some.2 he) hw), herrored key v w⟩

/-- Exactly one of two maps has a key. -/
def HeldByOne (m m' : ExpectedMap) (key : EntityKey) (v : ExpectedValue) : Prop :=
  m.get? key = some v ∧ m'.get? key = none ∨ m'.get? key = some v ∧ m.get? key = none

/-- **Two maps that are not at odds**: what only one of them has was removed, and what both have is
the same. -/
structure Compared (m m' : ExpectedMap) : Prop where
  removed : ∀ key v, HeldByOne m m' key v → wasRemoved v = true
  shared : ∀ key v w, m.get? key = some v → m'.get? key = some w → SameView v w

theorem Compared.refl (m : ExpectedMap) : Compared m m where
  removed key v h := by
    rcases h with ⟨hv, hnone⟩ | ⟨hv, hnone⟩ <;> exact absurd (hv.symm.trans hnone) (by simp)
  shared key v w hv hw := by
    obtain rfl : v = w := Option.some.inj (hv.symm.trans hw)
    exact ⟨rfl, rfl, rfl, rfl, rfl⟩

/-- A node with a map against the baseline. -/
theorem faultless_againstBaseline :
    Faultless (againstBaseline baseline node (some m)) ↔ Compared baseline m := by
  unfold againstBaseline
  rw [faultless_append, faultless_append, faultless_missingFindings, faultless_missingFindings,
    faultless_sharedFindings]
  constructor
  · rintro ⟨⟨hfrom, hto⟩, hshared⟩
    refine ⟨?_, hshared⟩
    rintro key v (⟨hv, hnone⟩ | ⟨hv, hnone⟩)
    · exact hfrom key v hv hnone
    · exact hto key v hv hnone
  · intro h
    exact ⟨⟨fun key v hv hnone => h.removed key v (.inl ⟨hv, hnone⟩),
      fun key v hv hnone => h.removed key v (.inr ⟨hv, hnone⟩)⟩, h.shared⟩

/-- **A map carries another**: it has every entity that the other has and that has not been removed,
and the two see the same of it. -/
def Carries (m m' : ExpectedMap) : Prop :=
  ∀ key v, m'.get? key = some v → wasRemoved v = false → ∃ w, m.get? key = some w ∧ SameView v w

/-- An entity that has not been removed stays so from map to map. -/
theorem Carries.trans (h : Carries m m') (h' : Carries m' m'') : Carries m m'' := by
  intro key u hu hlive
  obtain ⟨v, hv, huv⟩ := h' key u hu hlive
  obtain ⟨w, hw, hvw⟩ := h key v hv (huv.wasRemoved ▸ hlive)
  exact ⟨w, hw, huv.trans hvw⟩

/-- **A comparison works in both directions**, though fields are compared in one only. -/
theorem Compared.symm (h : Compared m m') : Compared m' m where
  removed key v hv := h.removed key v (Or.symm hv)
  shared key v w hv hw := (h.shared key w v hw hv).symm

/-- What is missing on the other side was removed, and what is on both sides is the same. -/
theorem Compared.carries (h : Compared m m') : Carries m' m := by
  intro key v hv hlive
  cases hw : m'.get? key with
  | none =>
    rw [h.removed key v (.inl ⟨hv, hw⟩)] at hlive
    cases hlive
  | some w => exact ⟨w, rfl, h.shared key v w hv hw⟩

/-! ### All nodes -/

/-- **A check has no faults exactly if** every node has a map in which no rejection is unexplained,
and none is at odds with the first. -/
theorem faultless_findings (maps : List (Option ExpectedMap)) :
    Faultless (findings maps) ↔
      (∀ i o, maps[i]? = some o → ∃ m, o = some m ∧ Faultless (rejectionFindings i m)) ∧
        ∀ first others, maps = some first :: others → ∀ m, some m ∈ others → Compared first m := by
  have hown : ∀ i o, Faultless (ownFindings i o) ↔
      ∃ m, o = some m ∧ Faultless (rejectionFindings i m) := by
    intro i o
    cases o <;> simp [ownFindings]
  unfold findings
  rw [faultless_append, faultless_mapIdx]
  simp only [hown]
  refine and_congr_right fun _ => ?_
  cases maps with
  | nil => simp
  | cons o others =>
    cases o with
    | none => simp
    | some first =>
      rw [faultless_mapIdx]
      constructor
      · rintro h _ _ ⟨⟩ m hm
        obtain ⟨i, hi⟩ := List.mem_iff_getElem?.1 hm
        exact faultless_againstBaseline.1 (h i _ hi)
      · intro h i o ho
        cases o with
        | none => exact faultless_nil
        | some m => exact faultless_againstBaseline.2 (h first others rfl m (List.mem_of_getElem? ho))

/-- A check without faults had a baseline to compare with, and every node has a map that is not at
odds with it. -/
theorem compared_of_faultless (h : Faultless (findings maps)) (hne : maps ≠ []) :
    ∃ baseline, maps[0]? = some (some baseline) ∧ ∀ i, i < maps.length →
      ∃ m, maps[i]? = some (some m) ∧ Faultless (rejectionFindings i m) ∧ Compared baseline m := by
  obtain ⟨hown, hcompared⟩ := (faultless_findings maps).1 h
  cases maps with
  | nil => exact absurd rfl hne
  | cons first others =>
    -- a missing map is an error of its own, so the first node is there to compare with
    obtain ⟨baseline, rfl, -⟩ := hown 0 first rfl
    refine ⟨baseline, rfl, ?_⟩
    intro i hi
    obtain ⟨m, hm, hrejections⟩ := hown i _ (List.getElem?_eq_getElem hi)
    refine ⟨m, hm ▸ List.getElem?_eq_getElem hi, hrejections, ?_⟩
    cases i with
    | zero =>
      cases hm
      exact Compared.refl _
    | succ i =>
      have hmem : some m ∈ others := hm ▸ List.getElem_mem (by simpa using hi)
      exact hcompared baseline others rfl m hmem

/-- Every node carries the baseline and is carried by it. -/
theorem carries_of_faultless (h : Faultless (findings maps)) (hne : maps ≠ []) :
    ∃ baseline, ∀ i, i < maps.length →
      ∃ m, maps[i]? = some (some m) ∧ Carries m baseline ∧ Carries baseline m := by
  obtain ⟨baseline, -, hall⟩ := compared_of_faultless h hne
  refine ⟨baseline, ?_⟩
  intro i hi
  obtain ⟨m, hm, -, hcompared⟩ := hall i hi
  exact ⟨m, hm, hcompared.carries, hcompared.symm.carries⟩

/-- **A valid report means that every two nodes agree.** Every node has a map, and an entity on one
node that was not removed is on every other, with the same type, error mark, content and last two
handled transactions. -/
theorem replicas_agree (maps : List (Option ExpectedMap)) (h : (Validator.lifecycle maps).Passes) :
    ∀ i j, i < maps.length → j < maps.length →
      ∃ mi mj, maps[i]? = some (some mi) ∧ maps[j]? = some (some mj) ∧
        ∀ key v, mi.get? key = some v →
          v.lastTransaction ≠ some .delete → v.lastTransaction ≠ some .expire →
          ∃ w, mj.get? key = some w ∧ v.entityType = w.entityType ∧ v.isErrored = w.isErrored ∧
            v.hash = w.hash ∧ v.handled = w.handled ∧ v.history = w.history := by
  intro i j hi hj
  rw [Validator.passes_iff] at h
  have hf : Faultless (findings maps) := (Audit.passes_done _ _ _).1 h
  have hne : maps ≠ [] := List.ne_nil_of_length_pos (Nat.zero_lt_of_lt hi)
  obtain ⟨baseline, hall⟩ := carries_of_faultless hf hne
  obtain ⟨mi, hmi, -, hto⟩ := hall i hi
  obtain ⟨mj, hmj, hfrom, -⟩ := hall j hj
  refine ⟨mi, mj, hmi, hmj, ?_⟩
  intro key v hv hdelete hexpire
  -- through the baseline, which neither node need be
  obtain ⟨w, hw, hs⟩ :=
    hfrom.trans hto key v hv ((wasRemoved_eq_false v).2 ⟨hdelete, hexpire⟩)
  exact ⟨w, hw, hs.entityType, hs.isErrored, hs.hash, hs.handled, hs.history⟩

/-- An entity that is on all nodes. -/
def liveEntity : ExpectedValue :=
  { entityType := .file, submitted := some ⟨.submitted, .update⟩,
    handled := some ⟨.handled, .update⟩, history := some ⟨.handled, .create⟩ }

/-- An entity that only one node still knows of. -/
def deletedEntity : ExpectedValue :=
  { entityType := .file, handled := some ⟨.handled, .delete⟩ }

/-- The map of a node that still knows of the deleted entity. -/
def fullerReplica : ExpectedMap := .ofList [(⟨0, 0, 7⟩, liveEntity), (⟨0, 0, 8⟩, deletedEntity)]

/-- Three nodes. The first one has seen another transaction submitted than the other two. -/
def threeReplicas : List (Option ExpectedMap) :=
  [some (.ofList [(⟨0, 0, 7⟩, { liveEntity with submitted := none })]), some fullerReplica,
   some (.ofList [(⟨0, 0, 7⟩, liveEntity)])]

theorem replicas_agree_threeReplicas :
    (Validator.lifecycle threeReplicas).Passes ∧
      ∃ m, threeReplicas[2]? = some (some m) ∧
        ∃ w, m.get? ⟨0, 0, 7⟩ = some w ∧ w.handled = liveEntity.handled := by
  have hp : (Validator.lifecycle threeReplicas).Passes := by decide +kernel
  have hsecond : threeReplicas[1]? = some (some fullerReplica) := rfl
  have hlive : fullerReplica.get? ⟨0, 0, 7⟩ = some liveEntity := by decide +kernel
  obtain ⟨mi, mj, hmi, hmj, h⟩ := replicas_agree threeReplicas hp 1 2 (by decide) (by decide)
  rw [hsecond, Option.some.injEq, Option.some.injEq] at hmi
  subst hmi
  obtain ⟨w, hw, -, -, -, hhandled, -⟩ := h ⟨0, 0, 7⟩ liveEntity hlive (by decide) (by decide)
  exact ⟨hp, mj, hmj, w, hw, hhandled.symm⟩

end RunAudit.Check.Entities
