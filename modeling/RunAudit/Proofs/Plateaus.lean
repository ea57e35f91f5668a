import Mathlib.Algebra.Order.Field.Rat
import Mathlib.Data.List.Chain
import Mathlib.Tactic.Linarith
import Mathlib.Tactic.NormNum
import Mathlib.Tactic.Ring
import RunAudit.Throughput.Phases

/-!
# Phases of plateaus

A throttled network holds one level for a while and then goes over to the next. The windows inside
a plateau are not off at all, and those between two plateaus are off by the step from the one level
to the other, whether that is tolerable or not. If the steps are large enough, then one of the four
windows in between is not stable, so that no two plateaus fall into one run; and the windows that
stay stable are off by more than nothing, so that each run is reported at the level of its plateau.

* `measured`, `bestSums`: first see how much each window is off, then pick the best of each run.
* `windows_plateau`: the windows of a plateau and of the step to the next.
* `exists_cut`: one window of each step is not stable.
* `bestSums_step`: a step ends one run and leaves the next to its plateau.
* `stablePhases_plateaus`: a series of plateaus has their levels as its phases.
-/

namespace RunAudit.Throughput

section General

variable {α : Type} [Quantity α]

/-- How much each window is off, if it is stable, and its sum. -/
def measured (previous : Option α) : List (Window α) → List (Option α × α)
  | [] => []
  | w :: ws => (w.delta? previous, w.sum) :: measured (some w.sum) ws

/-- The best window of a run after one more. -/
def better (best : Option (α × α)) (delta sum : α) : α × α :=
  match best with
  | none => (delta, sum)
  | some (least, kept) => if delta < least then (delta, sum) else (least, kept)

/-- The sum of the best window of each run. -/
def bestSums (best : Option (α × α)) : List (Option α × α) → List α
  | [] => best.toList.map (·.2)
  | (none, _) :: ms => best.toList.map (·.2) ++ bestSums none ms
  | (some delta, sum) :: ms => bestSums (some (better best delta sum)) ms

/-- **Windows may be measured before the best ones are picked.** -/
theorem steadySums_eq (best : Option (α × α)) (previous : Option α) (ws : List (Window α)) :
    steadySums best previous ws = bestSums best (measured previous ws) := by
  induction ws generalizing best previous with
  | nil => rfl
  | cons w ws ih =>
    cases hd : w.delta? previous <;> cases best <;>
      simp [steadySums, measured, bestSums, better, hd, ih]

/-- The windows of a plateau that goes on. -/
theorem windows_replicate (m : Nat) (a : α) (rest : List α) :
    windows (List.replicate (m + 5) a ++ rest) =
      List.replicate m (.ofSamples (List.replicate 5 a))
        ++ windows (List.replicate 5 a ++ rest) := by
  induction m with
  | zero => rfl
  | succ m ih =>
    have hfirst : windows (List.replicate (m + 1 + 5) a ++ rest) =
        .ofSamples (List.replicate 5 a) :: windows (List.replicate (m + 5) a ++ rest) := rfl
    rw [hfirst, ih]
    rfl

end General

/-! ### Rationals -/

theorem larger_rat (x y : Rat) : Quantity.larger x y = max x y := by
  change (if x < y then y else x) = max x y
  split_ifs with h
  · exact (max_eq_right h.le).symm
  · exact (max_eq_left (not_lt.1 h)).symm

theorem smaller_rat (x y : Rat) : Quantity.smaller x y = min x y := by
  change (if y < x then y else x) = min x y
  split_ifs with h
  · exact (min_eq_right h.le).symm
  · exact (min_eq_left (not_lt.1 h)).symm

theorem abs_rat (x : Rat) : Quantity.abs x = |x| := by
  change (if x < 0 then -x else x) = |x|
  split_ifs with h
  · exact (abs_of_neg h).symm
  · exact (abs_of_nonneg (not_lt.1 h)).symm

theorem tolerance_rat (w : Window Rat) : w.tolerance = w.sum / 50 := by
  have h : (0.02 : Rat) = 1 / 50 := by norm_num
  change (0.02 : Rat) * w.sum = w.sum / 50
  rw [h]
  ring

theorem ofSamples_rat (x₁ x₂ x₃ x₄ x₅ : Rat) :
    Window.ofSamples [x₁, x₂, x₃, x₄, x₅] =
      { sum := x₁ + x₂ + x₃ + x₄ + x₅
        spread := (max (max (max (max x₁ x₂) x₃) x₄) x₅ - min (min (min (min x₁ x₂) x₃) x₄) x₅)
          * 5 } := by
  simp only [← larger_rat, ← smaller_rat]
  rfl

theorem delta?_rat (previous : Option Rat) (w : Window Rat) :
    w.delta? previous =
      Quantity.least (((previous.map fun sum => |w.sum - sum|).toList ++ [w.spread]).filter
        fun d => decide (d < w.sum / 50)) := by
  unfold Window.delta?
  simp only [abs_rat, tolerance_rat]

theorem least_pair (x y : Rat) : Quantity.least [x, y] = some (min x y) :=
  congrArg some (smaller_rat x y)

/-- A window of equal samples is not off. -/
theorem delta?_of_flat (previous : Option Rat) {w : Window Rat} (hs : w.spread = 0)
    (hw : 0 < w.sum) : w.delta? previous = some 0 := by
  have ht : (0 : Rat) < w.sum / 50 := by linarith
  rw [delta?_rat, hs]
  cases previous with
  | none =>
    simp [ht]
    rfl
  | some sum =>
    by_cases hc : |w.sum - sum| < w.sum / 50
    · simp [hc, ht, least_pair]
    · simp [hc, ht]
      rfl

/-- A window whose samples lie further apart than its sum has changed is off by that change. -/
theorem delta?_of_change_le {previous : Rat} {w : Window Rat} (h : |w.sum - previous| ≤ w.spread) :
    w.delta? (some previous) =
      if |w.sum - previous| < w.sum / 50 then some |w.sum - previous| else none := by
  rw [delta?_rat]
  by_cases hc : |w.sum - previous| < w.sum / 50
  · rw [if_pos hc]
    by_cases hs : w.spread < w.sum / 50
    · simp [hc, hs, least_pair, h]
    · simp [hc, hs]
      rfl
  · have hs : ¬ w.spread < w.sum / 50 := fun hs => hc (h.trans_lt hs)
    rw [if_neg hc]
    simp [hc, hs]
    rfl

/-! ### Plateaus and steps -/

/-- A stretch of a series that holds one level for at least a window. -/
structure Plateau where
  level : Rat
  length : Nat
  level_pos : 0 < level
  window_le : windowSize ≤ length

namespace Plateau

def samples (p : Plateau) : List Rat := List.replicate p.length p.level

/-- Levels that lie apart: by at least a fiftieth of the sum of a window that holds one sample of
the higher level, and otherwise the lower one. -/
def Apart (p q : Plateau) : Prop :=
  0.02 * (4 * min p.level q.level + max p.level q.level) ≤ |p.level - q.level|

end Plateau

/-- A window inside a plateau. -/
def flat (a : Rat) : Window Rat := { sum := 5 * a, spread := 0 }

/-- The sum of a window with `k` samples of the level after a step. -/
def sumAt (a b : Rat) (k : Nat) : Rat := 5 * a + k * (b - a)

/-- A window with samples of both levels of a step. -/
def blend (a b : Rat) (k : Nat) : Window Rat := { sum := sumAt a b k, spread := |b - a| * 5 }

/-- Whether the change of a window during a step is tolerable. -/
def Passable (a b : Rat) (k : Nat) : Prop := |b - a| < sumAt a b k / 50

instance (a b : Rat) (k : Nat) : Decidable (Passable a b k) :=
  inferInstanceAs (Decidable (_ < _))

/-- How a window during a step is measured. -/
def grade (a b : Rat) (k : Nat) : Option Rat × Rat :=
  (if Passable a b k then some |b - a| else none, sumAt a b k)

variable {a b : Rat}

theorem ofSamples_replicate (a : Rat) : Window.ofSamples (List.replicate 5 a) = flat a := by
  have h := ofSamples_rat a a a a a
  simp only [max_self, min_self, sub_self, zero_mul] at h
  rw [flat, show 5 * a = a + a + a + a + a by ring]
  exact h

/-- The samples of a window that is in the middle of a step. -/
theorem ofSamples_step (a b : Rat) {k : Nat} (hk : k ∈ List.range' 1 4) :
    Window.ofSamples (List.replicate (5 - k) a ++ List.replicate k b) = blend a b k := by
  have hspread : max a b - min a b = |b - a| := by rw [max_sub_min_eq_abs, abs_sub_comm]
  have hcases : k = 1 ∨ k = 2 ∨ k = 3 ∨ k = 4 := by simpa [List.range'] using hk
  unfold blend
  rcases hcases with rfl | rfl | rfl | rfl <;>
  · refine (ofSamples_rat _ _ _ _ _).trans ?_
    simp only [Window.mk.injEq, max_self, min_self, sup_right_idem, inf_right_idem, hspread,
      and_true, sumAt]
    push_cast
    ring

theorem windows_step (a b : Rat) (n : Nat) (rest : List Rat) :
    windows (List.replicate 5 a ++ (List.replicate (n + 5) b ++ rest)) =
      flat a :: ((List.range' 1 4).map (blend a b)
        ++ windows (List.replicate (n + 5) b ++ rest)) := by
  have hwindows : windows (List.replicate 5 a ++ (List.replicate (n + 5) b ++ rest)) =
      .ofSamples (List.replicate 5 a) ::
        ((List.range' 1 4).map (fun k =>
            .ofSamples (List.replicate (5 - k) a ++ List.replicate k b))
          ++ windows (List.replicate (n + 5) b ++ rest)) := rfl
  rw [hwindows, ofSamples_replicate, List.map_congr_left fun k hk => ofSamples_step a b hk]

theorem measured_flat (previous : Option Rat) (ha : 0 < a) (m : Nat) (rest : List (Window Rat)) :
    measured previous (List.replicate (m + 1) (flat a) ++ rest) =
      List.replicate (m + 1) (some 0, 5 * a) ++ measured (some (5 * a)) rest := by
  have hpos : 0 < (flat a).sum := by
    change 0 < 5 * a
    linarith
  have hfirst : ∀ previous rest, measured previous (flat a :: rest) =
      (some 0, 5 * a) :: measured (some (5 * a)) rest := by
    intro previous rest
    rw [measured, delta?_of_flat previous rfl hpos]
    rfl
  induction m generalizing previous with
  | zero => exact hfirst previous rest
  | succ m ih => rw [List.replicate_succ, List.cons_append, hfirst, ih]; rfl

theorem measured_blend (a b : Rat) (k n : Nat) (rest : List (Window Rat)) :
    measured (some (sumAt a b k)) ((List.range' (k + 1) n).map (blend a b) ++ rest) =
      (List.range' (k + 1) n).map (grade a b) ++ measured (some (sumAt a b (k + n))) rest := by
  induction n generalizing k with
  | zero => rfl
  | succ n ih =>
    have hchange : (blend a b (k + 1)).sum - sumAt a b k = b - a := by
      simp only [blend, sumAt]
      push_cast
      ring
    have hspread : |(blend a b (k + 1)).sum - sumAt a b k| ≤ (blend a b (k + 1)).spread := by
      rw [hchange]
      change |b - a| ≤ |b - a| * 5
      linarith [abs_nonneg (b - a)]
    have hrest := ih (k + 1)
    rw [Nat.add_right_comm k 1 n] at hrest
    rw [List.range'_succ, List.map_cons, List.cons_append, measured,
      delta?_of_change_le hspread, hchange]
    exact congrArg _ hrest

/-! ### Cuts -/

/-- A list along which a property is not lost again. -/
theorem exists_split {p : Nat → Prop} {ks : List Nat}
    (h : ks.Pairwise fun j k => p j → p k) :
    ∃ us ss, ks = us ++ ss ∧ (∀ k ∈ us, ¬ p k) ∧ ∀ k ∈ ss, p k := by
  induction ks with
  | nil => exact ⟨[], [], rfl, by simp, by simp⟩
  | cons k ks ih =>
    obtain ⟨hk, hks⟩ := List.pairwise_cons.1 h
    by_cases hp : p k
    · exact ⟨[], k :: ks, rfl, by simp, List.forall_mem_cons.2 ⟨hp, fun j hj => hk j hj hp⟩⟩
    · obtain ⟨us, ss, rfl, hus, hss⟩ := ih hks
      exact ⟨k :: us, ss, rfl, List.forall_mem_cons.2 ⟨hp, hus⟩, hss⟩

theorem passable_mono (hab : a ≤ b) {j k : Nat} (hjk : j ≤ k) (h : Passable a b j) :
    Passable a b k := by
  have hc : (j : Rat) * (b - a) ≤ k * (b - a) :=
    mul_le_mul_of_nonneg_right (by exact_mod_cast hjk) (by linarith)
  unfold Passable sumAt at h ⊢
  linarith

theorem passable_anti (hab : b ≤ a) {j k : Nat} (hjk : j ≤ k) (h : Passable a b k) :
    Passable a b j := by
  have hc : (k : Rat) * (b - a) ≤ j * (b - a) :=
    mul_le_mul_of_nonpos_right (by exact_mod_cast hjk) (by linarith)
  unfold Passable sumAt at h ⊢
  linarith

/-- **Every step is cut.** A step upwards is first too large for the sums, and a step downwards is
so in the end. -/
theorem exists_cut (h : 0.02 * (4 * min a b + max a b) ≤ |a - b|) :
    ∃ before us after, List.range' 1 4 = before ++ us ++ after ∧ us ≠ [] ∧
      (∀ k ∈ before, Passable a b k) ∧ (∀ k ∈ us, ¬ Passable a b k) ∧
      ∀ k ∈ after, Passable a b k := by
  have hsorted : (List.range' 1 4).Pairwise (· < ·) := by decide
  rw [abs_sub_comm] at h
  rcases le_total a b with hab | hab
  · -- the sums grow, so windows stay passable once they are, and the first is not
    rw [min_eq_left hab, max_eq_right hab] at h
    have hfirst : ¬ Passable a b 1 := by
      unfold Passable sumAt
      norm_num at h ⊢
      linarith
    obtain ⟨us, after, hsplit, hus, hafter⟩ :=
      exists_split (hsorted.imp fun {j k} hjk => passable_mono hab (Nat.le_of_lt hjk))
    refine ⟨[], us, after, by simpa using hsplit, ?_, by simp, hus, hafter⟩
    rintro rfl
    rw [List.nil_append] at hsplit
    exact hfirst (hafter 1 (hsplit ▸ by decide))
  · -- the sums shrink, so windows stay impassable, and the last is
    rw [min_eq_right hab, max_eq_left hab] at h
    have hlast : ¬ Passable a b 4 := by
      unfold Passable sumAt
      norm_num at h ⊢
      linarith
    obtain ⟨before, us, hsplit, hbefore, hus⟩ :=
      exists_split (p := fun k => ¬ Passable a b k)
        (hsorted.imp fun {j k} hjk => mt (passable_anti hab (Nat.le_of_lt hjk)))
    refine ⟨before, us, [], by simpa using hsplit, ?_, fun k hk => not_not.1 (hbefore k hk), hus,
      by simp⟩
    rintro rfl
    rw [List.append_nil] at hsplit
    exact hbefore 4 (hsplit ▸ by decide) hlast

/-! ### Runs -/

/-- No run is under way, or only one whose windows are all off. -/
def Open (best : Option (Rat × Rat)) : Prop := ∀ x ∈ best, 0 < x.1

theorem open_none : Open none := by
  rintro x ⟨⟩

/-- The run of a plateau keeps its first window. -/
theorem bestSums_flat {best : Option (Rat × Rat)} (h : Open best) (sum : Rat) (m : Nat)
    (ms : List (Option Rat × Rat)) :
    bestSums best (List.replicate (m + 1) (some 0, sum) ++ ms) = bestSums (some (0, sum)) ms := by
  have hfirst : better best 0 sum = (0, sum) := by
    cases best with
    | none => rfl
    | some x => exact if_pos (h x rfl)
  have hnext : better (some (0, sum)) 0 sum = (0, sum) := by simp [better]
  rw [List.replicate_succ, List.cons_append, bestSums, hfirst]
  induction m with
  | zero => rfl
  | succ m ih => rw [List.replicate_succ, List.cons_append, bestSums, hnext, ih]

/-- Windows that are off do not better it. -/
theorem bestSums_of_passable {ks : List Nat} (h : ∀ k ∈ ks, Passable a b k) (sum : Rat)
    (ms : List (Option Rat × Rat)) :
    bestSums (some (0, sum)) (ks.map (grade a b) ++ ms) = bestSums (some (0, sum)) ms := by
  induction ks with
  | nil => rfl
  | cons k ks ih =>
    obtain ⟨hk, hks⟩ := List.forall_mem_cons.1 h
    have hkept : better (some (0, sum)) |b - a| (sumAt a b k) = (0, sum) :=
      if_neg (not_lt.2 (abs_nonneg (b - a)))
    rw [List.map_cons, List.cons_append, grade, if_pos hk, bestSums, hkept, ih hks]

/-- Windows that are not stable begin no run. -/
theorem bestSums_of_not_passable {ks : List Nat} (h : ∀ k ∈ ks, ¬ Passable a b k)
    (ms : List (Option Rat × Rat)) :
    bestSums none (ks.map (grade a b) ++ ms) = bestSums none ms := by
  induction ks with
  | nil => rfl
  | cons k ks ih =>
    obtain ⟨hk, hks⟩ := List.forall_mem_cons.1 h
    rw [List.map_cons, List.cons_append, grade, if_neg hk, bestSums, ih hks]
    rfl

/-- Stable windows ahead of a plateau begin a run that is all off. -/
theorem exists_open {ks : List Nat} (h : ∀ k ∈ ks, Passable a b k) (hab : a ≠ b)
    {best : Option (Rat × Rat)} (hbest : Open best) :
    ∃ best', Open best' ∧ ∀ ms, bestSums best (ks.map (grade a b) ++ ms) = bestSums best' ms := by
  have hpos : 0 < |b - a| := abs_pos.2 (sub_ne_zero.2 hab.symm)
  induction ks generalizing best with
  | nil => exact ⟨best, hbest, fun _ => rfl⟩
  | cons k ks ih =>
    obtain ⟨hk, hks⟩ := List.forall_mem_cons.1 h
    have hnext : Open (some (better best |b - a| (sumAt a b k))) := by
      rintro x ⟨⟩
      unfold better
      split
      · exact hpos
      · split
        · exact hpos
        · exact hbest _ rfl
    obtain ⟨best', hopen, hms⟩ := ih hks hnext
    refine ⟨best', hopen, fun ms => ?_⟩
    rw [List.map_cons, List.cons_append, grade, if_pos hk, bestSums, hms]

/-- **A step ends one run**, and what it begins is left to the plateau behind it. -/
theorem bestSums_step (h : 0.02 * (4 * min a b + max a b) ≤ |a - b|) (hab : a ≠ b) (sum : Rat) :
    ∃ best, Open best ∧ ∀ ms, bestSums (some (0, sum))
      ((List.range' 1 4).map (grade a b) ++ ms) = sum :: bestSums best ms := by
  obtain ⟨before, us, after, hsplit, hne, hbefore, hus, hafter⟩ := exists_cut h
  obtain ⟨best, hopen, hms⟩ := exists_open hafter hab open_none
  refine ⟨best, hopen, fun ms => ?_⟩
  obtain ⟨k, us, rfl⟩ := List.exists_cons_of_ne_nil hne
  obtain ⟨hk, hus⟩ := List.forall_mem_cons.1 hus
  rw [hsplit, List.map_append, List.map_append, List.append_assoc, List.append_assoc,
    bestSums_of_passable hbefore, List.map_cons, List.cons_append, grade, if_neg hk, bestSums,
    bestSums_of_not_passable hus, hms]
  rfl

/-! ### Series -/

theorem Plateau.Apart.ne {p q : Plateau} (h : p.Apart q) : p.level ≠ q.level := by
  intro he
  have hp := p.level_pos
  unfold Plateau.Apart at h
  rw [he, min_self, max_self, sub_self, abs_zero] at h
  norm_num at h
  linarith

theorem Plateau.exists_samples (p : Plateau) :
    ∃ m, p.samples = List.replicate (m + 5) p.level := by
  obtain ⟨m, hm⟩ : ∃ m, p.length = m + 5 := Nat.exists_eq_add_of_le' p.window_le
  refine ⟨m, ?_⟩
  unfold Plateau.samples
  rw [hm]

/-- The plateau at the end of a series. -/
theorem windows_last (m : Nat) (a : Rat) :
    windows (List.replicate (m + 5) a) = List.replicate (m + 1) (flat a) := by
  have hone : windows (List.replicate 5 a) = [.ofSamples (List.replicate 5 a)] := rfl
  have hall := windows_replicate m a []
  rw [List.append_nil, List.append_nil, hone, ofSamples_replicate] at hall
  rw [hall, List.replicate_succ']

/-- A plateau and the step to the next one. -/
theorem windows_plateau (m n : Nat) (a b : Rat) (rest : List Rat) :
    windows (List.replicate (m + 5) a ++ (List.replicate (n + 5) b ++ rest)) =
      List.replicate (m + 1) (flat a)
        ++ ((List.range' 1 4).map (blend a b) ++ windows (List.replicate (n + 5) b ++ rest)) := by
  have hlast : List.replicate (m + 1) (flat a) = List.replicate m (flat a) ++ [flat a] :=
    List.replicate_succ'
  rw [windows_replicate, ofSamples_replicate, windows_step, hlast, List.append_assoc,
    List.singleton_append]

/-- **The best windows of a series of plateaus** lie in the plateaus, one in each. -/
theorem bestSums_plateaus {plateaus : List Plateau} {p : Plateau}
    (h : (p :: plateaus).IsChain Plateau.Apart) {best : Option (Rat × Rat)} (hbest : Open best)
    (previous : Option Rat) :
    bestSums best (measured previous (windows ((p :: plateaus).flatMap Plateau.samples))) =
      (p :: plateaus).map fun p => 5 * p.level := by
  -- ahead of each plateau no run is under way but one that it takes over
  induction plateaus generalizing p best previous with
  | nil =>
    obtain ⟨m, hm⟩ := p.exists_samples
    have hflat := measured_flat previous p.level_pos m []
    rw [List.append_nil] at hflat
    rw [List.flatMap_singleton, hm, windows_last, hflat, bestSums_flat hbest]
    rfl
  | cons q plateaus ih =>
    obtain ⟨m, hm⟩ := p.exists_samples
    obtain ⟨n, hn⟩ := q.exists_samples
    obtain ⟨hapart, hrest⟩ := List.isChain_cons_cons.1 h
    obtain ⟨best', hopen, hstep⟩ := bestSums_step hapart hapart.ne (5 * p.level)
    have hstart : 5 * p.level = sumAt p.level q.level 0 := by simp [sumAt]
    have hblend := measured_blend p.level q.level 0 4
      (windows ((q :: plateaus).flatMap Plateau.samples))
    rw [List.flatMap_cons, List.flatMap_cons, hm, hn, windows_plateau, ← hn,
      ← List.flatMap_cons, measured_flat previous p.level_pos, bestSums_flat hbest, hstart, hblend,
      ← hstart, hstep, ih hrest hopen]
    rfl

/-- **Every plateau is found.** -/
theorem stablePhases_plateaus (nodeCount : Nat) (hn : 1 ≤ nodeCount) (plateaus : List Plateau)
    (h : plateaus.IsChain Plateau.Apart) :
    stablePhases (plateaus.flatMap Plateau.samples) nodeCount =
      plateaus.map fun p => p.level / (nodeCount : Rat) := by
  cases plateaus with
  | nil => simp [stablePhases, windows, steadySums]
  | cons p plateaus =>
    have hzero : nodeCount ≠ 0 := Nat.one_le_iff_ne_zero.1 hn
    unfold stablePhases
    rw [if_neg hzero, steadySums_eq, bestSums_plateaus h open_none, List.map_map]
    refine List.map_congr_left fun p _ => ?_
    change 5 * p.level / 5 / nodeCount = p.level / nodeCount
    rw [mul_div_cancel_left₀ _ (by norm_num : (5 : Rat) ≠ 0)]

/-- Levels so close to each other that one window of each step is stable. -/
def closePlateaus : List Plateau :=
  [⟨100, 5, by norm_num, by decide⟩, ⟨110.5, 5, by norm_num, by decide⟩,
   ⟨100, 6, by norm_num, by decide⟩]

theorem stablePhases_closePlateaus : 1 ≤ 4 ∧ closePlateaus.IsChain Plateau.Apart ∧
    stablePhases (closePlateaus.flatMap Plateau.samples) 4 = [25, 27.625, 25] := by
  have hchain : closePlateaus.IsChain Plateau.Apart := by
    simp only [closePlateaus, List.isChain_cons_cons, List.isChain_singleton, Plateau.Apart]
    norm_num
  refine ⟨by decide, hchain, ?_⟩
  rw [stablePhases_plateaus 4 (by decide) closePlateaus hchain]
  simp only [closePlateaus, List.map_cons, List.map_nil]
  norm_num

end RunAudit.Throughput
