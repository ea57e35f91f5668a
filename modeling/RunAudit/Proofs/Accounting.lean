import Mathlib.Algebra.BigOperators.Group.Finset.Piecewise
import Mathlib.Algebra.GroupWithZero.Nat
import RunAudit.Proofs.Replicas

/-!
# Accounting of a comparison of maps

The check of the expected maps goes through the entries of each map and compares all other nodes
with the first. Its messages are counted here without it: by the keys of the maps and the values
that stand there. Some defects have a message each, as fields that differ, and some only one for
two nodes together, as keys that are missing.

* `Severity`, `countOf`: findings counted by their severity.
* `rejections`, `OneSided`, `differences`: the defects.
* `accounted`: how many messages there are of each severity.
* `countOf_findings`: the check finds that many; `passes_lifecycle`, when it passes.
* `findings_accounted`: a report has that many, whatever was submitted; two nodes may change places.
-/

namespace RunAudit

/-! ### Counting findings -/

/-- How severe a message is. -/
inductive Severity where
  | info
  | warning
  | error
  deriving DecidableEq

/-- How severe the message of a finding is, if it has one. -/
def Finding.severity? : Finding → Option Severity
  | info _ => some .info
  | warning _ => some .warning
  | error _ => some .error
  | event _ => none

/-- The number of messages of some severity. -/
def Report.count (r : Report) : Severity → Nat
  | .info => r.infos.length
  | .warning => r.warnings.length
  | .error => r.errors.length

/-- The number of findings of some severity. -/
def countOf (s : Severity) (fs : List Finding) : Nat := fs.countP fun f => f.severity? = some s

section Counting

variable {s : Severity} {α : Type}

@[simp] theorem countOf_nil : countOf s [] = 0 := rfl

@[simp] theorem countOf_append (fs gs : List Finding) :
    countOf s (fs ++ gs) = countOf s fs + countOf s gs := List.countP_append

theorem countOf_flatMap (f : α → List Finding) (as : List α) :
    countOf s (as.flatMap f) = (as.map fun a => countOf s (f a)).sum := by
  induction as with
  | nil => rfl
  | cons a as ih => rw [List.flatMap_cons, countOf_append, ih, List.map_cons, List.sum_cons]

theorem countOf_filterMap (f : α → Option Finding) (as : List α) :
    countOf s (as.filterMap f) = as.countP fun a => ((f a).bind Finding.severity?) = some s := by
  unfold countOf
  rw [List.countP_filterMap]
  refine List.countP_congr fun a _ => ?_
  cases f a <;> simp

/-- Items whose findings may name their places, but do not depend on them in number. -/
theorem countOf_mapIdx {f : Nat → α → List Finding} {g : α → Nat}
    (h : ∀ i a, countOf s (f i a) = g a) (as : List α) :
    countOf s (as.mapIdx f).flatten = (as.map g).sum := by
  induction as generalizing f with
  | nil => rfl
  | cons a as ih =>
    rw [List.mapIdx_cons, List.flatten_cons, countOf_append, h, ih fun i a => h (i + 1) a,
      List.map_cons, List.sum_cons]

/-- **A report has one message for each finding of its severity.** -/
theorem count_extend (validator : String) (fs : List Finding) (s : Severity) :
    ({ validator : Report }.extend fs).count s = countOf s fs := by
  have hlength : ∀ pick : Finding → Option String,
      (∀ f, (pick f).isSome = decide (f.severity? = some s)) →
      (fs.filterMap pick).length = countOf s fs := by
    intro pick hpick
    rw [List.length_filterMap_eq_countP]
    exact List.countP_congr fun f _ => by rw [hpick]
  cases s <;> refine hlength _ ?_ <;> rintro (m | m | m | e) <;> rfl

theorem faultless_iff_countOf (fs : List Finding) : Faultless fs ↔ countOf .error fs = 0 := by
  unfold Faultless countOf
  rw [List.filterMap_eq_nil_iff, List.countP_eq_zero]
  refine forall_congr' fun f => forall_congr' fun _ => ?_
  cases f <;> simp [Finding.error?, Finding.severity?]

end Counting

namespace Check.Entities

open Snapshot

variable {m m' n n' : ExpectedMap} {v w : ExpectedValue} {key : EntityKey} {node : Nat}
  {s : Severity}

/-! ### Defects of maps -/

/-- The keys of a map. -/
def keySet (m : ExpectedMap) : Finset EntityKey := (m.entries.map (·.1)).toFinset

/-- The last transaction of an entity deleted it or let it expire. -/
def Removed (v : ExpectedValue) : Prop :=
  v.lastTransaction = some .delete ∨ v.lastTransaction = some .expire

instance (v : ExpectedValue) : Decidable (Removed v) := inferInstanceAs (Decidable (_ ∨ _))

/-- The last transaction of an entity was rejected, and the one before it neither deleted it nor let
it expire. -/
def Unexplained (v : ExpectedValue) : Prop :=
  (∃ t ∈ v.handled, t.state = .handleRejected) ∧
    ¬ ∃ t ∈ v.history, t.type = .delete ∨ t.type = .expire

instance (v : ExpectedValue) : Decidable (Unexplained v) := inferInstanceAs (Decidable (_ ∧ _))

/-- The number of keys of a map with a rejection that nothing explains. -/
def rejections (m : ExpectedMap) : Nat :=
  ((keySet m).filter fun key => ∃ v ∈ m.get? key, Unexplained v).card

/-- The first of two maps has a key that the other lacks, and a value of some kind for it. -/
def OneSided (kind : ExpectedValue → Prop) (m n : ExpectedMap) : Prop :=
  ∃ key v, m.get? key = some v ∧ n.get? key = none ∧ kind v

/-- The number of fields in which two values differ, apart from what was submitted last. -/
def differences (v w : ExpectedValue) : Nat :=
  [decide (v.entityType ≠ w.entityType), decide (v.isErrored ≠ w.isErrored),
    decide (v.hash ≠ w.hash), decide (v.handled ≠ w.handled),
    decide (v.history ≠ w.history)].count true

/-- Differences in the values of one key in two maps, if both have it. -/
def differencesAt (m n : ExpectedMap) (key : EntityKey) : Nat :=
  match m.get? key, n.get? key with
  | some v, some w => differences v w
  | _, _ => 0

/-- A key that is errored in two maps. -/
def ErroredAt (m n : ExpectedMap) (key : EntityKey) : Prop :=
  (∃ v ∈ m.get? key, v.isErrored = true) ∧ ∃ w ∈ n.get? key, w.isErrored = true

instance (m n : ExpectedMap) (key : EntityKey) : Decidable (ErroredAt m n key) :=
  inferInstanceAs (Decidable (_ ∧ _))

theorem mem_keySet : key ∈ keySet m ↔ ∃ v, m.get? key = some v := by
  simp [keySet, Keyed.get?_eq_some]

instance (kind : ExpectedValue → Prop) [DecidablePred kind] (m n : ExpectedMap) :
    Decidable (OneSided kind m n) :=
  decidable_of_iff (∃ e ∈ m.entries, n.get? e.1 = none ∧ kind e.2) <| by
    unfold OneSided
    simp only [Prod.exists, Keyed.get?_eq_some]

/-- A defect that has at most one message. -/
def once (p : Prop) [Decidable p] : Nat := if p then 1 else 0

/-- The messages that a node has on its own: an error if its map is absent, and else one for each
rejection that nothing explains. -/
def ownCount : Severity → Option ExpectedMap → Nat
  | .error, none => 1
  | .error, some m => rejections m
  | _, _ => 0

/-- The messages of two nodes: an error for either direction in which a key is missing that was not
removed, and one for each field of a shared key that differs; a warning for each shared key that is
errored on both; an info for either direction in which a key is missing that was removed. -/
def pairCount (m n : ExpectedMap) : Severity → Nat
  | .error =>
    once (OneSided (¬ Removed ·) m n) + once (OneSided (¬ Removed ·) n m)
      + ∑ key ∈ keySet m ∩ keySet n, differencesAt m n key
  | .warning => ((keySet m ∩ keySet n).filter fun key => ErroredAt m n key).card
  | .info => once (OneSided Removed m n) + once (OneSided Removed n m)

/-- **How many messages there are** of some severity: those of each node on its own, and if the first
has a map, those that it has together with each other node that has one. -/
def accounted (maps : List (Option ExpectedMap)) (s : Severity) : Nat :=
  (maps.map (ownCount s)).sum +
    match maps with
    | some first :: others => (others.map fun o => o.elim 0 (pairCount first · s)).sum
    | _ => 0

/-! ### What the check counts -/

theorem nodup_keys (m : ExpectedMap) : (m.entries.map (·.1)).Nodup := by
  refine List.pairwise_map.2 (m.ascending.imp ?_)
  intro a b hlt heq
  rw [heq] at hlt
  exact KeyOrder.lt_irrefl _ hlt

/-- Going through the entries of a map is going through its keys. -/
theorem sum_entries (m : ExpectedMap) (f : EntityKey → ExpectedValue → Nat) :
    (m.entries.map fun e => f e.1 e.2).sum = ∑ key ∈ keySet m, (m.get? key).elim 0 (f key) := by
  unfold keySet
  rw [List.sum_toFinset _ (nodup_keys m), List.map_map]
  refine congrArg List.sum (List.map_congr_left ?_)
  rintro ⟨key, v⟩ he
  have hv : m.get? key = some v := Keyed.get?_eq_some.2 he
  simp [hv]

theorem countP_entries (m : ExpectedMap) (p : ExpectedValue → Prop) [DecidablePred p] :
    m.entries.countP (fun e => p e.2) =
      ((keySet m).filter fun key => ∃ v ∈ m.get? key, p v).card := by
  have hsum : ∀ es : List (EntityKey × ExpectedValue),
      es.countP (fun e => p e.2) = (es.map fun e => if p e.2 then 1 else 0).sum := by
    intro es
    induction es with
    | nil => rfl
    | cons e es ih => by_cases hp : p e.2 <;> simp [hp, ih, Nat.add_comm]
  rw [hsum, sum_entries m fun _ v => if p v then 1 else 0, Finset.card_filter]
  refine Finset.sum_congr rfl fun key _ => ?_
  cases m.get? key <;> simp

theorem wasRemoved_iff (v : ExpectedValue) : wasRemoved v = true ↔ Removed v := by
  unfold wasRemoved Removed
  cases v.lastTransaction with
  | none => simp
  | some t => cases t <;> simp [TransactionType.removesEntity]

theorem isUnexplainedRejection_iff (v : ExpectedValue) :
    isUnexplainedRejection v = true ↔ Unexplained v := by
  have hremoves : ∀ t : TransactionType, t.removesEntity = true ↔ t = .delete ∨ t = .expire := by
    intro t
    cases t <;> simp [TransactionType.removesEntity]
  unfold isUnexplainedRejection Unexplained
  cases v.handled <;> cases v.history <;> simp [← hremoves]

/-- Each rejection that nothing explains has an error. -/
theorem countOf_rejectionFindings :
    countOf s (rejectionFindings node m) = if s = .error then rejections m else 0 := by
  unfold rejectionFindings rejections
  rw [countOf_filterMap, ← countP_entries]
  split
  · next hs =>
    subst hs
    refine List.countP_congr fun e _ => ?_
    by_cases hu : isUnexplainedRejection e.2 = true
    · simp [hu, Finding.severity?, (isUnexplainedRejection_iff e.2).1 hu]
    · simp [hu, mt (isUnexplainedRejection_iff e.2).2 hu]
  · next hs =>
    refine List.countP_eq_zero.2 fun e _ => ?_
    by_cases hu : isUnexplainedRejection e.2 = true <;> simp [hu, Finding.severity?, Ne.symm hs]

theorem filter_lacking {p : ExpectedValue → Bool} {kind : ExpectedValue → Prop}
    (h : ∀ v, p v = true ↔ kind v) :
    (lacking m n).filter (fun e => p e.2) = [] ↔ ¬ OneSided kind m n := by
  rw [List.filter_eq_nil_iff]
  unfold lacking Keyed.contains OneSided
  simp only [List.mem_filter, Prod.forall, ← Keyed.get?_eq_some, h]
  push Not
  simp

/-- One finding for all items of a list, if there are any. -/
theorem countOf_unless {α : Type} {items : List α} {p : Prop} [Decidable p]
    (h : items = [] ↔ ¬ p) (f : Finding) :
    countOf s (if items.isEmpty then [] else [f]) = if f.severity? = some s then once p else 0 := by
  have hempty : items.isEmpty = true ↔ ¬ p := by rw [List.isEmpty_iff, h]
  by_cases hp : p
  · rw [if_neg (by rw [hempty]; exact not_not_intro hp)]
    simp [countOf, once, hp, List.countP_cons]
  · rw [if_pos (hempty.2 hp)]
    simp [once, hp]

/-- Missing keys have one message for all, but those of removed entities apart from the others. -/
theorem countOf_missingFindings (presentNode missingNode : Nat) :
    countOf s (missingFindings presentNode m missingNode n) =
      match s with
      | .error => once (OneSided (¬ Removed ·) m n)
      | .warning => 0
      | .info => once (OneSided Removed m n) := by
  have hkept : ∀ v, (! wasRemoved v) = true ↔ ¬ Removed v := by
    intro v
    rw [← wasRemoved_iff]
    simp
  have hremoved : (lacking m n).filter (fun e => wasRemoved e.2) = [] ↔ ¬ OneSided Removed m n :=
    filter_lacking wasRemoved_iff
  have hlost : (lacking m n).filter (not ∘ fun e => wasRemoved e.2) = [] ↔
      ¬ OneSided (¬ Removed ·) m n := filter_lacking hkept
  unfold missingFindings
  rw [List.partition_eq_filter_filter]
  simp only [countOf_append]
  rw [countOf_unless hremoved, countOf_unless hlost]
  cases s <;> simp [Finding.severity?]

/-- Each field that differs has an error. -/
theorem countOf_fieldFindings :
    countOf s (fieldFindings key v node w) = if s = .error then differences v w else 0 := by
  unfold fieldFindings
  rw [countOf_filterMap]
  split
  · next hs =>
    subst hs
    have hfields : differences v w = (comparedFields.map fun f => ! f.2.1 v w).count true := by
      simp [differences, comparedFields]
    rw [hfields, List.count, List.countP_map]
    refine List.countP_congr fun f _ => ?_
    cases hf : f.2.1 v w <;> simp [hf, Finding.severity?]
  · next hs =>
    refine List.countP_eq_zero.2 fun f _ => ?_
    cases hf : f.2.1 v w <;> simp [hf, Finding.severity?, Ne.symm hs]

/-- An entity that is errored on both nodes has a warning. -/
theorem countOf_erroredFindings :
    countOf s (erroredFindings key v node w) =
      if s = .warning then once (v.isErrored = true ∧ w.isErrored = true) else 0 := by
  unfold erroredFindings once
  by_cases herrored : v.isErrored = true ∧ w.isErrored = true
  · rw [if_pos (by simpa using herrored), if_pos herrored]
    cases s <;> rfl
  · rw [if_neg (by simpa using herrored), if_neg herrored, ite_self]
    rfl

/-- What is said of one entity that both nodes have. -/
def countAt (s : Severity) (v w : ExpectedValue) : Nat :=
  match s with
  | .error => differences v w
  | .warning => once (v.isErrored = true ∧ w.isErrored = true)
  | .info => 0

/-- Only the keys of both maps count. -/
theorem countOf_sharedFindings :
    countOf s (sharedFindings m node n) =
      ∑ key ∈ keySet m ∩ keySet n,
        (m.get? key).elim 0 fun v => (n.get? key).elim 0 (countAt s v) := by
  unfold sharedFindings
  rw [countOf_flatMap]
  refine (congrArg List.sum (List.map_congr_left ?_)).trans
    ((sum_entries m fun key v => (n.get? key).elim 0 (countAt s v)).trans ?_)
  · rintro ⟨key, v⟩ _
    cases hw : n.get? key with
    | none => simp [hw]
    | some w =>
      simp only [hw, countOf_append, countOf_fieldFindings, countOf_erroredFindings]
      cases s <;> simp [countAt]
  · refine (Finset.sum_subset Finset.inter_subset_left ?_).symm
    intro key hm hnot
    have hn : n.get? key = none :=
      Option.eq_none_iff_forall_not_mem.2 fun w hw =>
        hnot (Finset.mem_inter.2 ⟨hm, mem_keySet.2 ⟨w, hw⟩⟩)
    rw [hn]
    cases m.get? key <;> rfl

/-- A node with a map against the baseline. -/
theorem countOf_againstBaseline :
    countOf s (againstBaseline m node (some n)) = pairCount m n s := by
  unfold againstBaseline
  rw [countOf_append, countOf_append, countOf_missingFindings, countOf_missingFindings,
    countOf_sharedFindings]
  cases s with
  | error =>
    refine congrArg _ (Finset.sum_congr rfl fun key _ => ?_)
    unfold differencesAt
    cases m.get? key <;> cases n.get? key <;> rfl
  | warning =>
    simp only [pairCount, Finset.card_filter, Nat.add_zero, Nat.zero_add]
    refine Finset.sum_congr rfl fun key _ => ?_
    cases hv : m.get? key <;> cases hw : n.get? key <;> simp [ErroredAt, hv, hw, countAt, once]
  | info =>
    refine Nat.add_eq_left.2 (Finset.sum_eq_zero fun key _ => ?_)
    cases m.get? key <;> cases n.get? key <;> rfl

/-- **The check finds as much as is accounted for.** -/
theorem countOf_findings (maps : List (Option ExpectedMap)) :
    countOf s (findings maps) = accounted maps s := by
  have hown : ∀ i o, countOf s (ownFindings i o) = ownCount s o := by
    intro i o
    cases o with
    | none => cases s <;> rfl
    | some m =>
      unfold ownFindings
      rw [countOf_rejectionFindings]
      cases s <;> rfl
  unfold findings accounted
  rw [countOf_append, countOf_mapIdx hown]
  refine congrArg _ ?_
  cases maps with
  | nil => rfl
  | cons first others =>
    cases first with
    | none => rfl
    | some first =>
      refine countOf_mapIdx ?_ others
      intro i o
      cases o with
      | none => rfl
      | some m => exact countOf_againstBaseline

/-- A report is valid exactly if no error is accounted for. -/
theorem passes_lifecycle (maps : List (Option ExpectedMap)) :
    (Validator.lifecycle maps).Passes ↔ accounted maps .error = 0 := by
  rw [Validator.passes_iff, ← countOf_findings, ← faultless_iff_countOf]
  exact Audit.passes_done _ _ _

/-! ### What does not matter -/

/-- Two maps with the same views: they have the same keys, and values with equal fields, apart from
what was submitted last. -/
def SameViews (m m' : ExpectedMap) : Prop := ∀ key, Option.Rel SameView (m.get? key) (m'.get? key)

theorem SameViews.cases (h : SameViews m m') (key : EntityKey) :
    (m.get? key = none ∧ m'.get? key = none) ∨
      ∃ v v', m.get? key = some v ∧ m'.get? key = some v' ∧ SameView v v' := by
  have hkey := h key
  cases hv : m.get? key with
  | none =>
    cases hv' : m'.get? key with
    | none => exact .inl ⟨rfl, rfl⟩
    | some v' =>
      rw [hv, hv'] at hkey
      cases hkey
  | some v =>
    cases hv' : m'.get? key with
    | none =>
      rw [hv, hv'] at hkey
      cases hkey
    | some v' =>
      rw [hv, hv'] at hkey
      cases hkey with
      | some hview => exact .inr ⟨v, v', rfl, rfl, hview⟩

theorem SameViews.symm (h : SameViews m m') : SameViews m' m := by
  intro key
  rcases h.cases key with ⟨hv, hv'⟩ | ⟨v, v', hv, hv', hview⟩
  · rw [hv, hv']
    exact .none
  · rw [hv, hv']
    exact .some hview.symm

theorem SameViews.keySet_eq (h : SameViews m m') : keySet m = keySet m' := by
  ext key
  rw [mem_keySet, mem_keySet]
  rcases h.cases key with ⟨hv, hv'⟩ | ⟨v, v', hv, hv', -⟩ <;> simp [hv, hv']

theorem SameView.removed_iff (h : SameView v w) : Removed v ↔ Removed w := by
  rw [← wasRemoved_iff, ← wasRemoved_iff, h.wasRemoved]

theorem SameViews.rejections_eq (h : SameViews m m') : rejections m = rejections m' := by
  unfold rejections
  rw [h.keySet_eq]
  refine congrArg Finset.card (Finset.filter_congr fun key _ => ?_)
  rcases h.cases key with ⟨hv, hv'⟩ | ⟨v, v', hv, hv', hview⟩
  · simp [hv, hv']
  · simp [hv, hv', Unexplained, hview.handled, hview.history]

theorem OneSided.congr {kind : ExpectedValue → Prop}
    (hkind : ∀ {v w}, SameView v w → (kind v ↔ kind w)) (hm : SameViews m m')
    (hn : SameViews n n') : OneSided kind m n ↔ OneSided kind m' n' := by
  have hto : ∀ {m m' n n' : ExpectedMap}, SameViews m m' → SameViews n n' →
      OneSided kind m n → OneSided kind m' n' := by
    rintro m m' n n' hm hn ⟨key, v, hv, hnone, hk⟩
    rcases hm.cases key with ⟨hv', -⟩ | ⟨u, v', hu, hv', hview⟩
    · rw [hv] at hv'
      cases hv'
    · obtain rfl : v = u := Option.some.inj (hv.symm.trans hu)
      rcases hn.cases key with ⟨-, hnone'⟩ | ⟨w, -, hw, -, -⟩
      · exact ⟨key, v', hv', hnone', (hkind hview).1 hk⟩
      · rw [hnone] at hw
        cases hw
  exact ⟨hto hm hn, hto hm.symm hn.symm⟩

theorem once_congr {p q : Prop} [Decidable p] [Decidable q] (h : p ↔ q) : once p = once q :=
  if_congr h rfl rfl

theorem SameViews.differencesAt_eq (hm : SameViews m m') (hn : SameViews n n')
    (key : EntityKey) : differencesAt m n key = differencesAt m' n' key := by
  unfold differencesAt
  rcases hm.cases key with ⟨hv, hv'⟩ | ⟨v, v', hv, hv', hview⟩
  · rw [hv, hv']
  · rcases hn.cases key with ⟨hw, hw'⟩ | ⟨w, w', hw, hw', hview'⟩
    · rw [hv, hv', hw, hw']
    · rw [hv, hv', hw, hw']
      simp only [differences, hview.entityType, hview.isErrored, hview.hash, hview.handled,
        hview.history, hview'.entityType, hview'.isErrored, hview'.hash, hview'.handled,
        hview'.history]

theorem SameViews.erroredAt_iff (hm : SameViews m m') (hn : SameViews n n') (key : EntityKey) :
    ErroredAt m n key ↔ ErroredAt m' n' key := by
  have hone : ∀ {m m' : ExpectedMap}, SameViews m m' →
      ((∃ v ∈ m.get? key, v.isErrored = true) ↔ ∃ v ∈ m'.get? key, v.isErrored = true) := by
    intro m m' h
    rcases h.cases key with ⟨hv, hv'⟩ | ⟨v, v', hv, hv', hview⟩
    · simp [hv, hv']
    · simp [hv, hv', hview.isErrored]
  exact and_congr (hone hm) (hone hn)

theorem SameViews.pairCount_eq (hm : SameViews m m') (hn : SameViews n n') :
    pairCount m n s = pairCount m' n' s := by
  have hkept : ∀ {v w}, SameView v w → (¬ Removed v ↔ ¬ Removed w) := fun h =>
    not_congr h.removed_iff
  cases s with
  | error =>
    simp only [pairCount, once_congr (OneSided.congr hkept hm hn),
      once_congr (OneSided.congr hkept hn hm), hm.keySet_eq, hn.keySet_eq,
      hm.differencesAt_eq hn]
  | warning =>
    simp only [pairCount, hm.keySet_eq, hn.keySet_eq]
    exact congrArg Finset.card (Finset.filter_congr fun key _ => hm.erroredAt_iff hn key)
  | info =>
    simp only [pairCount, once_congr (OneSided.congr SameView.removed_iff hm hn),
      once_congr (OneSided.congr SameView.removed_iff hn hm)]

theorem map_eq_of_forall₂ {α β γ : Type} {R : α → β → Prop} {f : α → γ} {g : β → γ}
    (hfg : ∀ a b, R a b → f a = g b) {as : List α} {bs : List β} (h : List.Forall₂ R as bs) :
    as.map f = bs.map g := by
  rw [← List.forall₂_eq_eq_eq]
  exact List.rel_map hfg h

/-- **What was submitted last does not count.** -/
theorem accounted_congr {maps maps' : List (Option ExpectedMap)}
    (h : List.Forall₂ (Option.Rel SameViews) maps maps') : accounted maps s = accounted maps' s := by
  have hown : ∀ o o', Option.Rel SameViews o o' → ownCount s o = ownCount s o' := by
    rintro _ _ (hviews | -)
    · cases s <;> simp only [ownCount, hviews.rejections_eq]
    · rfl
  unfold accounted
  rw [map_eq_of_forall₂ hown h]
  refine congrArg _ ?_
  cases h with
  | nil => rfl
  | cons hfirst hothers =>
    cases hfirst with
    | none => rfl
    | some hfirst =>
      refine congrArg List.sum (map_eq_of_forall₂ ?_ hothers)
      rintro _ _ (hviews | -)
      · exact hfirst.pairCount_eq hviews
      · rfl

theorem differences_comm (v w : ExpectedValue) : differences v w = differences w v := by
  simp only [differences, ne_comm (b := w.entityType), ne_comm (b := w.isErrored),
    ne_comm (b := w.hash), ne_comm (b := w.handled), ne_comm (b := w.history)]

theorem pairCount_comm (m n : ExpectedMap) (s : Severity) : pairCount m n s = pairCount n m s := by
  cases s with
  | error =>
    have hat : ∀ key, differencesAt m n key = differencesAt n m key := by
      intro key
      unfold differencesAt
      cases m.get? key <;> cases n.get? key <;> simp [differences_comm]
    simp only [pairCount, hat, Finset.inter_comm (keySet m),
      Nat.add_comm (once (OneSided _ m n))]
  | warning =>
    have hat : ∀ key, ErroredAt m n key ↔ ErroredAt n m key := fun key => and_comm
    simp only [pairCount, hat, Finset.inter_comm (keySet m)]
  | info => exact Nat.add_comm _ _

/-- Two nodes may change places. -/
theorem accounted_swap (first second : Option ExpectedMap) :
    accounted [second, first] s = accounted [first, second] s := by
  unfold accounted
  simp only [List.map_cons, List.map_nil, List.sum_cons, List.sum_nil, Nat.add_zero]
  rw [Nat.add_comm (ownCount s second)]
  refine congrArg _ ?_
  cases first <;> cases second <;> simp [pairCount_comm]

/-- **Every finding is accounted for.** The check of the expected maps always comes to a report, and
the report has as many messages of each severity as there are defects. What was submitted last does
not count, and two nodes may change places. -/
theorem findings_accounted (maps : List (Option ExpectedMap)) :
    ∃ r, (Validator.lifecycle maps).report = .ok r ∧ (∀ s, r.count s = accounted maps s) ∧
      (∀ maps', List.Forall₂ (Option.Rel SameViews) maps maps' →
        ∃ r', (Validator.lifecycle maps').report = .ok r' ∧ ∀ s, r'.count s = r.count s) ∧
      ∀ first second, maps = [first, second] →
        ∃ r', (Validator.lifecycle [second, first]).report = .ok r' ∧
          ∀ s, r'.count s = r.count s := by
  have hreport : ∀ maps, ∃ r, (Validator.lifecycle maps).report = .ok r ∧
      ∀ s, r.count s = accounted maps s := by
    intro maps
    refine ⟨_, rfl, fun s => ?_⟩
    rw [← countOf_findings]
    exact count_extend _ _ s
  obtain ⟨r, hr, hcount⟩ := hreport maps
  refine ⟨r, hr, hcount, ?_, ?_⟩
  · intro maps' h
    obtain ⟨r', hr', hcount'⟩ := hreport maps'
    exact ⟨r', hr', fun s => by rw [hcount', hcount, accounted_congr h]⟩
  · rintro first second rfl
    obtain ⟨r', hr', hcount'⟩ := hreport [second, first]
    exact ⟨r', hr', fun s => by rw [hcount', hcount, accounted_swap]⟩

example : accounted threeReplicas .info = 1 := by decide +kernel

end Check.Entities

end RunAudit
