import Mathlib.Algebra.Order.Ring.Rat
import Mathlib.Data.List.Basic
import Mathlib.Order.Bounds.Basic
import RunAudit.Proofs.Plateaus

/-!
# Phases are runs of steady windows

A window of a series is steady if one of the two ways in which it can be off, its change against
the window before it or the spread of its own samples, is tolerable. Phases are found in one pass
that keeps no more than the best window of the run under way; here they are said of the places of
the series. There is one phase for each maximal run of steady windows, and it is that of the first
window in the run that is least off.

* `Tolerable`, `Steady`, `IsOff`: by how much a window is off.
* `MaximalRun`, `FirstLeast`: runs of places, and the first best place of a run.
* `better_ahead`: what one more stable window does to the run under way.
* `bestSums_runs`: a pass yields one sum for each maximal run.
* `stablePhases_steadyRuns`: phases are maximal runs of steady windows.
-/

namespace RunAudit.Throughput

/-! ### Windows by their places -/

variable {α : Type}

/-- The number of windows of a series. -/
def windowCount (series : List α) : Nat := series.length + 1 - windowSize

/-- The samples of the window that begins at a place. -/
def samplesAt (series : List α) (i : Nat) : List α := (series.drop i).take windowSize

section General

variable [Quantity α]

/-- The windows of a series begin at its first places. -/
theorem windows_eq (series : List α) :
    windows series =
      (List.range (windowCount series)).map fun i => .ofSamples (samplesAt series i) := by
  induction series with
  | nil => rfl
  | cons x xs ih =>
    simp only [windows, List.length_take, List.length_cons]
    by_cases hshort : xs.length + 1 < windowSize
    · have hcount : windowCount (x :: xs) = 0 := by
        unfold windowCount
        rw [List.length_cons]
        omega
      rw [if_pos (by omega), hcount]
      rfl
    · have hcount : windowCount (x :: xs) = windowCount xs + 1 := by
        unfold windowCount
        rw [List.length_cons]
        omega
      rw [if_neg (by omega), hcount, List.range_succ_eq_map, List.map_cons, List.map_map, ih]
      rfl

/-- The sum of the window before a place. -/
def sumBefore? (w : Nat → Window α) : Nat → Option α
  | 0 => none
  | i + 1 => some (w i).sum

/-- Each window is measured against the one before it. -/
theorem measured_range' (w : Nat → Window α) (k n : Nat) :
    measured (sumBefore? w k) ((List.range' k n).map w) =
      (List.range' k n).map fun i => ((w i).delta? (sumBefore? w i), (w i).sum) := by
  induction n generalizing k with
  | zero => rfl
  | succ n ih =>
    rw [List.range'_succ, List.map_cons, List.map_cons, measured]
    exact congrArg _ (ih (k + 1))

end General

/-! ### Runs of places -/

/-- **A maximal run** of places with a property, from `a` up to but not including `b`, among the
first `count` places. -/
structure MaximalRun (p : Nat → Prop) (count a b : Nat) : Prop where
  nonempty : a < b
  le_count : b ≤ count
  holds : ∀ i, a ≤ i → i < b → p i
  opens : ∀ i, i + 1 = a → ¬ p i
  closes : b < count → ¬ p b

/-- The first place from `a` up to `b` at which a value is least, and the value there. -/
structure FirstLeast (value : Nat → Rat → Prop) (a b j : Nat) (d : Rat) : Prop where
  from_le : a ≤ j
  lt_to : j < b
  attained : value j d
  least : ∀ i e, a ≤ i → i < b → value i e → d ≤ e
  first : ∀ i e, a ≤ i → i < j → value i e → d < e

section Pass

variable {delta : Nat → Option Rat} {sum : Nat → Rat} {count k : Nat} {d : Rat}
  {best : Option (Rat × Rat)}

/-- A window that is stable. -/
def Stable (delta : Nat → Option Rat) (i : Nat) : Prop := ∃ d, delta i = some d

/-- The first window from `a` up to `b` that is least off. -/
def Best (delta : Nat → Option Rat) (a b j : Nat) (d : Rat) : Prop :=
  FirstLeast (fun i d => delta i = some d) a b j d

/-- **The run under way** ahead of a place: where it opened, and its best window so far. -/
structure Underway (delta : Nat → Option Rat) (sum : Nat → Rat) (k : Nat) (x : Rat × Rat)
    (a : Nat) : Prop where
  stable : ∀ i, a ≤ i → i < k → Stable delta i
  opens : ∀ i, i + 1 = a → ¬ Stable delta i
  best : ∃ j, Best delta a k j x.1 ∧ sum j = x.2

/-- What is kept ahead of a place: nothing, if no run is under way. -/
def Ahead (delta : Nat → Option Rat) (sum : Nat → Rat) (k : Nat) : Option (Rat × Rat) → Prop
  | none => ∀ i, i + 1 = k → ¬ Stable delta i
  | some x => ∃ a, Underway delta sum k x a

theorem not_stable (h : delta k = none) : ¬ Stable delta k := by
  rintro ⟨d, hd⟩
  rw [h] at hd
  cases hd

theorem best_singleton (hd : delta k = some d) : Best delta k (k + 1) k d where
  from_le := Nat.le_refl k
  lt_to := Nat.lt_succ_self k
  attained := hd
  least i e hi hk he := by
    obtain rfl : i = k := by omega
    exact (Option.some.inj (hd.symm.trans he)).le
  first i e hi hk _ := by omega

/-- The best window of a run that goes on: the new one, only if it is less off. -/
theorem best_succ {a j : Nat} {least kept : Rat} (hj : Best delta a k j least) (hs : sum j = kept)
    (hd : delta k = some d) :
    ∃ j', Best delta a (k + 1) j' (better (some (least, kept)) d (sum k)).1 ∧
      sum j' = (better (some (least, kept)) d (sum k)).2 := by
  have hlast : ∀ i e, i < k + 1 → delta i = some e → i < k ∨ d = e := by
    intro i e hi he
    rcases Nat.lt_succ_iff_lt_or_eq.1 hi with hi | rfl
    · exact .inl hi
    · exact .inr (Option.some.inj (hd.symm.trans he))
  have ha : a ≤ k := hj.from_le.trans hj.lt_to.le
  by_cases hlt : d < least
  · have hnew : better (some (least, kept)) d (sum k) = (d, sum k) := if_pos hlt
    have hall : ∀ i e, a ≤ i → i < k → delta i = some e → d < e := fun i e hi hk he =>
      hlt.trans_le (hj.least i e hi hk he)
    rw [hnew]
    refine ⟨k, ⟨ha, Nat.lt_succ_self k, hd, ?_, hall⟩, rfl⟩
    intro i e hi hk he
    rcases hlast i e hk he with hk | rfl
    · exact (hall i e hi hk he).le
    · exact le_rfl
  · have hold : better (some (least, kept)) d (sum k) = (least, kept) := if_neg hlt
    rw [hold]
    refine ⟨j, ⟨hj.from_le, Nat.lt_succ_of_lt hj.lt_to, hj.attained, ?_, hj.first⟩, hs⟩
    intro i e hi hk he
    rcases hlast i e hk he with hk | rfl
    · exact hj.least i e hi hk he
    · exact not_lt.1 hlt

/-- **One more stable window** opens a run or goes on with the one under way. -/
theorem better_ahead (h : Ahead delta sum k best) (hd : delta k = some d) :
    Ahead delta sum (k + 1) (some (better best d (sum k))) := by
  cases best with
  | none =>
    refine ⟨k, ?_, h, k, best_singleton hd, rfl⟩
    intro i hi hk
    obtain rfl : i = k := by omega
    exact ⟨d, hd⟩
  | some x =>
    obtain ⟨a, hstable, hopens, j, hj, hs⟩ := h
    refine ⟨a, ?_, hopens, best_succ hj hs hd⟩
    intro i hi hk
    rcases Nat.lt_succ_iff_lt_or_eq.1 hk with hk | rfl
    · exact hstable i hi hk
    · exact ⟨d, hd⟩

/-- A window that is not stable leaves no run under way. -/
theorem ahead_none (h : delta k = none) : Ahead delta sum (k + 1) none := by
  intro i hi
  obtain rfl : i = k := by omega
  exact not_stable h

/-- The run under way has opened where any maximal run has that ends here. -/
theorem Underway.maximalRun_iff {x : Rat × Rat} {a₀ : Nat} (h : Underway delta sum k x a₀)
    (hk : k ≤ count) (hend : k < count → ¬ Stable delta k) (a : Nat) :
    MaximalRun (Stable delta) count a k ↔ a = a₀ := by
  obtain ⟨j, hj, -⟩ := h.best
  have hopen : a₀ < k := hj.from_le.trans_lt hj.lt_to
  constructor
  · intro hrun
    have hne := hrun.nonempty
    rcases Nat.lt_trichotomy a a₀ with hlt | heq | hlt
    · exact absurd (hrun.holds (a₀ - 1) (by omega) (by omega)) (h.opens (a₀ - 1) (by omega))
    · exact heq
    · exact absurd (h.stable (a - 1) (by omega) (by omega)) (hrun.opens (a - 1) (by omega))
  · rintro rfl
    exact ⟨hopen, hk, h.stable, h.opens, hend⟩

/-- The sum that stands for a run is that of its best window. -/
def SumOf (delta : Nat → Option Rat) (sum : Nat → Rat) (r : Nat × Nat) (s : Rat) : Prop :=
  ∃ j d, Best delta r.1 r.2 j d ∧ s = sum j

/-- Each sum is that of some stable window. -/
theorem forall_sums {p : Rat → Prop} {runs : List (Nat × Nat)} {sums : List Rat}
    (h : List.Forall₂ (SumOf delta sum) runs sums) (hp : ∀ j d, delta j = some d → p (sum j)) :
    ∀ s ∈ sums, p s := by
  induction h with
  | nil => exact fun s hs => absurd hs List.not_mem_nil
  | cons hs _ ih =>
    obtain ⟨j, d, hbest, rfl⟩ := hs
    exact List.forall_mem_cons.2 ⟨hp j d hbest.attained, ih⟩

/-- **Some maximal runs with their sums**, in the order of their places. -/
structure Lists (delta : Nat → Option Rat) (sum : Nat → Rat) (count : Nat) (ends : Nat → Prop)
    (runs : List (Nat × Nat)) (sums : List Rat) : Prop where
  mem_iff : ∀ a b, (a, b) ∈ runs ↔ MaximalRun (Stable delta) count a b ∧ ends b
  ordered : runs.Pairwise fun r r' => r.2 < r'.1
  sums : List.Forall₂ (SumOf delta sum) runs sums

/-- Where a run cannot go on, only the one under way ends. -/
theorem lists_closed (h : Ahead delta sum k best) (hk : k ≤ count)
    (hend : k < count → ¬ Stable delta k) :
    ∃ runs, Lists delta sum count (· = k) runs (best.toList.map (·.2)) := by
  cases best with
  | none =>
    refine ⟨[], ?_, .nil, .nil⟩
    intro a b
    refine iff_of_false List.not_mem_nil ?_
    rintro ⟨hrun, rfl⟩
    have hne := hrun.nonempty
    exact h (b - 1) (by omega) (hrun.holds (b - 1) (by omega) (by omega))
  | some x =>
    obtain ⟨a₀, hrun⟩ := h
    obtain ⟨j, hj, hs⟩ := hrun.best
    refine ⟨[(a₀, k)], ?_, List.pairwise_singleton _ _, .cons ⟨j, x.1, hj, hs.symm⟩ .nil⟩
    intro a b
    rw [List.mem_singleton, Prod.mk.injEq]
    refine and_congr_left ?_
    rintro rfl
    exact (hrun.maximalRun_iff hk hend a).symm

/-- **A pass yields one sum for each maximal run** that ends where it begins or later. -/
theorem bestSums_runs (n : Nat) (h : Ahead delta sum k best) :
    ∃ runs, Lists delta sum (k + n) (k ≤ ·) runs
      (bestSums best ((List.range' k n).map fun i => (delta i, sum i))) := by
  induction n generalizing k best with
  | zero =>
    obtain ⟨runs, hmem, hordered, hsums⟩ :=
      lists_closed h (Nat.le_refl k) fun hlt => absurd hlt (Nat.lt_irrefl k)
    refine ⟨runs, ?_, hordered, hsums⟩
    intro a b
    rw [Nat.add_zero, hmem]
    refine and_congr_right fun hrun => ?_
    have hle := hrun.le_count
    omega
  | succ n ih =>
    have hcount : k + (n + 1) = k + 1 + n := by omega
    rw [List.range'_succ, List.map_cons, hcount]
    cases hd : delta k with
    | none =>
      -- the run under way ends, and all others end later
      have hle : k ≤ k + 1 + n := by omega
      have hnone : Ahead delta sum (k + 1) none := ahead_none hd
      obtain ⟨ended, hended⟩ := lists_closed h hle fun _ => not_stable hd
      obtain ⟨later, hlater⟩ := ih hnone
      refine ⟨ended ++ later, ?_, ?_, ?_⟩
      · intro a b
        rw [List.mem_append, hended.mem_iff, hlater.mem_iff, ← and_or_left]
        refine and_congr_right fun _ => ?_
        omega
      · refine List.pairwise_append.2 ⟨hended.ordered, hlater.ordered, ?_⟩
        rintro ⟨a, b⟩ hr ⟨a', b'⟩ hr'
        obtain ⟨-, rfl⟩ := (hended.mem_iff a b).1 hr
        obtain ⟨hrun, hb⟩ := (hlater.mem_iff a' b').1 hr'
        by_contra hlt
        exact not_stable hd (hrun.holds b (not_lt.1 hlt) hb)
      · exact List.rel_append hended.sums hlater.sums
    | some d =>
      obtain ⟨runs, hruns⟩ := ih (better_ahead h hd)
      refine ⟨runs, ?_, hruns.ordered, hruns.sums⟩
      intro a b
      rw [hruns.mem_iff]
      refine and_congr_right fun hrun => ⟨fun hb => by omega, fun hb => ?_⟩
      -- a run that ended here would go on
      rcases Nat.lt_or_eq_of_le hb with hb | rfl
      · exact hb
      · exact absurd ⟨d, hd⟩ (hrun.closes (by omega))

end Pass

/-! ### How much a window is off -/

section Rationals

variable {series : List Rat} {i : Nat} {d : Rat}

/-- The sum of the window at a place. -/
def windowSum (series : List Rat) (i : Nat) : Rat := (samplesAt series i).sum

/-- How far the samples of the window at a place lie apart, on the scale of a sum. -/
def windowSpread (series : List Rat) (i : Nat) : Rat :=
  5 * ((samplesAt series i).max?.getD 0 - (samplesAt series i).min?.getD 0)

/-- How much the sum has changed since the window before. -/
def windowChange? (series : List Rat) : Nat → Option Rat
  | 0 => none
  | i + 1 => some |windowSum series (i + 1) - windowSum series i|

/-- By how much the window at a place is tolerably off: its change or its spread, if that is less
than a fiftieth of its sum. -/
def Tolerable (series : List Rat) (i : Nat) (d : Rat) : Prop :=
  (windowChange? series i = some d ∨ d = windowSpread series i) ∧ d < 0.02 * windowSum series i

/-- **A steady window** has a tolerable change or a tolerable spread. -/
def Steady (series : List Rat) (i : Nat) : Prop := ∃ d, Tolerable series i d

/-- How much a steady window is off: the smaller of what is tolerable. -/
def IsOff (series : List Rat) (i : Nat) (d : Rat) : Prop := IsLeast {e | Tolerable series i e} d

theorem total_rat (xs : List Rat) : (Quantity.total xs).getD (Quantity.ofNat 0) = xs.sum := by
  cases xs with
  | nil => rfl
  | cons x xs =>
    rw [List.sum_eq_foldl, List.foldl_cons, zero_add]
    rfl

theorem greatest_rat (xs : List Rat) : Quantity.greatest xs = xs.max? := by
  have hlarger : (Quantity.larger : Rat → Rat → Rat) = max := by
    funext x y
    exact larger_rat x y
  unfold Quantity.greatest Quantity.reduce
  rw [hlarger]
  cases xs <;> rfl

theorem least_rat (xs : List Rat) : Quantity.least xs = xs.min? := by
  have hsmaller : (Quantity.smaller : Rat → Rat → Rat) = min := by
    funext x y
    exact smaller_rat x y
  unfold Quantity.least Quantity.reduce
  rw [hsmaller]
  cases xs <;> rfl

/-- The window at a place, as the pass sees it. -/
theorem ofSamples_samplesAt (series : List Rat) (i : Nat) :
    Window.ofSamples (samplesAt series i) =
      { sum := windowSum series i, spread := windowSpread series i } := by
  simp only [Window.ofSamples, total_rat, greatest_rat, least_rat, windowSum, windowSpread,
    mul_comm (5 : Rat)]
  rfl

/-- How much the window at a place is off, as the pass sees it. -/
def deltaAt? (series : List Rat) (i : Nat) : Option Rat :=
  (Window.ofSamples (samplesAt series i)).delta?
    (sumBefore? (fun i => .ofSamples (samplesAt series i)) i)

/-- What the pass picks the smallest of is what is tolerable. -/
theorem deltaAt?_eq (series : List Rat) (i : Nat) :
    ∃ offs : List Rat, deltaAt? series i = offs.min? ∧ ∀ e, e ∈ offs ↔ Tolerable series i e := by
  have hbefore : (sumBefore? (fun i => .ofSamples (samplesAt series i)) i).map
      (fun sum => |windowSum series i - sum|) = windowChange? series i := by
    cases i with
    | zero => rfl
    | succ i =>
      rw [sumBefore?, ofSamples_samplesAt]
      rfl
  refine ⟨((windowChange? series i).toList ++ [windowSpread series i]).filter
    fun e => decide (e < windowSum series i / 50), ?_, ?_⟩
  · rw [deltaAt?, delta?_rat, least_rat, ofSamples_samplesAt, hbefore]
  · intro e
    have hcut : e < windowSum series i / 50 ↔ e < 0.02 * windowSum series i := by
      rw [show (0.02 : Rat) * windowSum series i = windowSum series i / 50 by ring]
    unfold Tolerable
    simp only [List.mem_filter, List.mem_append, Option.mem_toList, List.mem_singleton,
      decide_eq_true_eq, hcut]

/-- **The pass measures what a window is off by.** -/
theorem deltaAt?_eq_some : deltaAt? series i = some d ↔ IsOff series i d := by
  obtain ⟨offs, hdelta, hmem⟩ := deltaAt?_eq series i
  rw [hdelta, List.min?_eq_some_iff]
  simp only [hmem]
  rfl

/-- A window is stable to the pass exactly if it is steady. -/
theorem stable_iff : Stable (deltaAt? series) i ↔ Steady series i := by
  obtain ⟨offs, hdelta, hmem⟩ := deltaAt?_eq series i
  unfold Stable Steady
  simp only [← hmem, hdelta]
  rw [← Option.isSome_iff_exists, List.isSome_min?_iff]
  exact ⟨List.exists_mem_of_ne_nil offs, fun ⟨_, he⟩ => List.ne_nil_of_mem he⟩

theorem windowSpread_nonneg (series : List Rat) (i : Nat) : 0 ≤ windowSpread series i := by
  unfold windowSpread
  generalize samplesAt series i = samples
  cases samples with
  | nil => simp
  | cons x xs =>
    have hne : x :: xs ≠ [] := List.cons_ne_nil x xs
    obtain ⟨most, hmost⟩ := Option.isSome_iff_exists.1 (List.isSome_max?_iff.2 hne)
    obtain ⟨least, hleast⟩ := Option.isSome_iff_exists.1 (List.isSome_min?_iff.2 hne)
    have hx := (List.max?_eq_some_iff.1 hmost).2 x List.mem_cons_self
    have hx' := (List.min?_eq_some_iff.1 hleast).2 x List.mem_cons_self
    rw [hmost, hleast, Option.getD_some, Option.getD_some]
    linarith

/-- Nothing is off by less than nothing, so the sum of a steady window is positive. -/
theorem windowSum_pos (h : Tolerable series i d) : 0 < windowSum series i := by
  obtain ⟨hoff, hlt⟩ := h
  have hnonneg : 0 ≤ d := by
    rcases hoff with hchange | rfl
    · cases i with
      | zero => cases hchange
      | succ i =>
        cases hchange
        exact abs_nonneg _
    · exact windowSpread_nonneg series i
  have hpos : 0 < 0.02 * windowSum series i := hnonneg.trans_lt hlt
  exact pos_of_mul_pos_right hpos (by norm_num)

/-- The pass over the windows of a series is one over its places. -/
theorem steadySums_windows (series : List Rat) :
    steadySums none none (windows series) =
      bestSums none ((List.range' 0 (windowCount series)).map fun i =>
        (deltaAt? series i, windowSum series i)) := by
  have hmeasured :=
    measured_range' (fun i => Window.ofSamples (samplesAt series i)) 0 (windowCount series)
  have hsum : ∀ i, (Window.ofSamples (samplesAt series i)).sum = windowSum series i := by
    intro i
    rw [ofSamples_samplesAt]
  simp only [hsum] at hmeasured
  rw [steadySums_eq, windows_eq, List.range_eq_range']
  exact congrArg _ hmeasured

end Rationals

/-- **Phases are runs of steady windows.** A series that is shorter than a window has no phase, nor
has one of no nodes. Otherwise there is one phase for each maximal run of steady windows, in their
order: the throughput per node in the first window of the run that is least off. No throughput is
zero or less. -/
theorem stablePhases_steadyRuns (series : List Rat) (nodeCount : Nat) :
    (series.length < windowSize ∨ nodeCount = 0 → stablePhases series nodeCount = []) ∧
      (windowSize ≤ series.length → 1 ≤ nodeCount →
        ∃ runs : List (Nat × Nat),
          (∀ a b, (a, b) ∈ runs ↔ MaximalRun (Steady series) (windowCount series) a b) ∧
          runs.Pairwise (fun r r' => r.2 < r'.1) ∧
          List.Forall₂ (fun r phase => ∃ j d, FirstLeast (IsOff series) r.1 r.2 j d ∧
            phase = windowSum series j / 5 / (nodeCount : Rat)) runs
            (stablePhases series nodeCount) ∧
          ∀ phase ∈ stablePhases series nodeCount, 0 < phase) := by
  constructor
  · rintro (hshort | rfl)
    · exact stablePhases_of_short hshort nodeCount
    · exact stablePhases_zero series
  · intro _ hn
    have hstable : Stable (deltaAt? series) = Steady series := by
      funext i
      exact propext stable_iff
    have hoff : (fun i d => deltaAt? series i = some d) = IsOff series := by
      funext i d
      exact propext deltaAt?_eq_some
    have hstart : Ahead (deltaAt? series) (windowSum series) 0 none :=
      fun i hi => absurd hi (Nat.succ_ne_zero i)
    obtain ⟨runs, hmem, hordered, hsums⟩ := bestSums_runs (windowCount series) hstart
    rw [← steadySums_windows] at hsums
    have hphases : stablePhases series nodeCount =
        (steadySums none none (windows series)).map fun sum => sum / 5 / (nodeCount : Rat) :=
      if_neg (by omega)
    rw [hphases]
    refine ⟨runs, ?_, hordered, ?_, ?_⟩
    · intro a b
      rw [hmem, hstable, Nat.zero_add, and_iff_left (Nat.zero_le b)]
    · refine List.forall₂_map_right_iff.2 (hsums.imp ?_)
      rintro r _ ⟨j, d, hbest, rfl⟩
      unfold Best at hbest
      rw [hoff] at hbest
      exact ⟨j, d, hbest, rfl⟩
    · have hpos : ∀ s ∈ steadySums none none (windows series), 0 < s := by
        refine forall_sums hsums fun j d hd => ?_
        have hoff : IsOff series j d := deltaAt?_eq_some.1 hd
        exact windowSum_pos hoff.1
      intro phase hphase
      obtain ⟨s, hs, rfl⟩ := List.mem_map.1 hphase
      have hn' : (0 : Rat) < nodeCount := Nat.cast_pos.2 hn
      exact div_pos (div_pos (hpos s hs) (by norm_num)) hn'

/-- A series with two runs of steady windows. In the first run a window that is not off comes ahead
of the flat one, and the second is the last window alone. -/
def steppedSeries : List Rat := [100, 101, 100, 100, 100, 100, 100, 50, 50, 50, 50, 50]

theorem stablePhases_steadyRuns_steppedSeries :
    windowSize ≤ steppedSeries.length ∧ 1 ≤ 2 ∧ stablePhases steppedSeries 2 = [50.1, 25] ∧
      ∃ runs : List (Nat × Nat), runs.length = 2 ∧
        ∀ a b, (a, b) ∈ runs ↔ MaximalRun (Steady steppedSeries) 8 a b := by
  have hphases : stablePhases steppedSeries 2 = [50.1, 25] := by decide +kernel
  obtain ⟨runs, hmem, -, hall, -⟩ :=
    (stablePhases_steadyRuns steppedSeries 2).2 (by decide) (by decide)
  rw [hphases] at hall
  exact ⟨by decide, by decide, hphases, runs, hall.length_eq, hmem⟩

end RunAudit.Throughput
