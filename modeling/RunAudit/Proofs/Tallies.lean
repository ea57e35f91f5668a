import Mathlib.Data.List.Basic
import RunAudit.Check.Suites

/-!
# The tally of a client log

The check of a client log reads the entries front to back and remembers the suite that is under
way. Here each entry is owned by a suite, or by none, as the entries before it say, and the tally is
what the entries of each suite come to.

* `owner`: the suite that an entry names, else the last one that was started by name.
* `owned`: the entries of a log that a suite owns.
* `countFrom_cons`, `get?_countFrom`: what one entry does to a tally, and what a whole log does.
* `countSuites_exact`: the tally counts what each suite owns and nothing else, and the tallies of
  two logs add up where the second one starts with a suite of its own.
-/

namespace RunAudit.Check.Suites

open Log

/-- The suite of the last entry that starts one and names it. -/
def lastNamed (before : List Entry) : Option String :=
  ((before.filter (·.marker = .suiteStart)).filterMap (·.suite)).getLast?

/-- **The suite that an entry belongs to**: the one that it names, else the last one that the
entries before it started by name. -/
def owner (before : List Entry) (e : Entry) : Option String := e.suite.or (lastNamed before)

/-- The entries of the rest of a log that a suite owns. -/
def ownedFrom (before : List Entry) (suite : String) : List Entry → List Entry
  | [] => []
  | e :: later =>
    if owner before e = some suite then e :: ownedFrom (before ++ [e]) suite later
    else ownedFrom (before ++ [e]) suite later

/-- The entries of a log that a suite owns. -/
def owned (suite : String) (es : List Entry) : List Entry := ownedFrom [] suite es

/-- How many of some entries start a suite, pass it, fail it, tell of a wrong status, and are
exceptions. -/
def tallied (es : List Entry) : SuiteCounts where
  started := es.countP (·.marker = .suiteStart)
  passed := es.countP (·.marker = .suitePassed)
  failed := es.countP (·.marker = .suiteFailed)
  wrongStatus := es.countP (·.marker = .wrongStatus)
  exceptions := es.countP (·.isException)

/-- The counts of one suite in two logs together. -/
def SuiteCounts.plus (s t : SuiteCounts) : SuiteCounts where
  started := s.started + t.started
  passed := s.passed + t.passed
  failed := s.failed + t.failed
  wrongStatus := s.wrongStatus + t.wrongStatus
  exceptions := s.exceptions + t.exceptions

/-- The value of a suite in a tally: none if nothing was counted. -/
def listed? (s : SuiteCounts) : Option SuiteCounts := if s = {} then none else some s

variable {before es : List Entry} {e : Entry} {t : Tally} {suite name : String}

/-! ### Counts -/

@[simp] theorem zero_plus (s : SuiteCounts) : SuiteCounts.plus {} s = s := by
  simp [SuiteCounts.plus]

@[simp] theorem plus_zero (s : SuiteCounts) : s.plus {} = s := rfl

@[simp] theorem listed?_zero : listed? {} = none := rfl

theorem plus_assoc (s t u : SuiteCounts) : (s.plus t).plus u = s.plus (t.plus u) := by
  simp [SuiteCounts.plus, Nat.add_assoc]

instance : Std.Associative SuiteCounts.plus := ⟨plus_assoc⟩

/-- Nothing was counted in two logs together only if nothing was counted in either. -/
theorem plus_eq_zero {s t : SuiteCounts} : s.plus t = {} ↔ s = {} ∧ t = {} := by
  obtain ⟨_, _, _, _, _⟩ := s
  obtain ⟨_, _, _, _, _⟩ := t
  simp only [SuiteCounts.plus, SuiteCounts.mk.injEq]
  omega

theorem listed?_of_ne {s : SuiteCounts} (h : s ≠ {}) : listed? s = some s := if_neg h

theorem listed?_plus (s t : SuiteCounts) :
    listed? (s.plus t) = Option.merge .plus (listed? s) (listed? t) := by
  by_cases hs : s = {}
  · rw [hs, zero_plus, listed?_zero, Option.merge_none_left]
  by_cases ht : t = {}
  · rw [ht, plus_zero, listed?_zero, Option.merge_none_right]
  have hst : s.plus t ≠ {} := fun h => hs (plus_eq_zero.1 h).1
  rw [listed?_of_ne hst, listed?_of_ne hs, listed?_of_ne ht, Option.merge_some_some]

theorem tallied_append (es fs : List Entry) :
    tallied (es ++ fs) = (tallied es).plus (tallied fs) := by
  simp [tallied, SuiteCounts.plus, List.countP_append]

/-- An entry is counted in the way that its marker says, if it is counted at all. -/
theorem add?_eq (s : SuiteCounts) (e : Entry) :
    s.add? e.marker = (listed? (tallied [e])).map s.plus := by
  obtain ⟨_, marker, _, _, _⟩ := e
  cases marker <;> rfl

/-- **One entry of a suite** adds to the counts of that suite and of no other. -/
theorem get?_add (t : Tally) (suite name : String) (e : Entry) :
    (t.add suite e.marker).get? name =
      if suite = name then Option.merge .plus (t.get? name) (listed? (tallied [e]))
      else t.get? name := by
  unfold Tally.add
  rw [add?_eq]
  cases hl : listed? (tallied [e]) with
  | none => simp
  | some once =>
    simp only [Option.map_some, Keyed.get?_insert]
    by_cases h : suite = name
    · subst h
      cases t.get? suite <;> simp
    · rw [if_neg h, if_neg (Ne.symm h)]

/-! ### Owners -/

theorem lastNamed_append (xs ys : List Entry) :
    lastNamed (xs ++ ys) = (lastNamed ys).or (lastNamed xs) := by
  unfold lastNamed
  rw [List.filter_append, List.filterMap_append, List.getLast?_append]

theorem lastNamed_singleton (e : Entry) :
    lastNamed [e] = if e.marker = .suiteStart then e.suite else none := by
  unfold lastNamed
  by_cases hm : e.marker = .suiteStart
  · rw [List.filter_cons_of_pos (by simpa using hm), if_pos hm]
    cases hs : e.suite <;> simp [hs]
  · rw [List.filter_cons_of_neg (by simpa using hm), if_neg hm]
    rfl

/-- The suite under way after one more entry. -/
theorem lastNamed_concat (before : List Entry) (e : Entry) :
    lastNamed (before ++ [e]) =
      if e.marker = .suiteStart then owner before e else lastNamed before := by
  rw [lastNamed_append, lastNamed_singleton]
  split_ifs <;> rfl

/-- The entries that a suite owns stand behind those that decide about it. -/
theorem mem_ownedFrom : e ∈ ownedFrom before suite es ↔
    ∃ mid after, es = mid ++ e :: after ∧ owner (before ++ mid) e = some suite := by
  induction es generalizing before with
  | nil => simp [ownedFrom]
  | cons f es ih =>
    have hmem : e ∈ ownedFrom before suite (f :: es) ↔
        owner before f = some suite ∧ e = f ∨ e ∈ ownedFrom (before ++ [f]) suite es := by
      rw [ownedFrom]
      split_ifs with ho <;> simp [ho]
    rw [hmem, ih]
    constructor
    · rintro (⟨ho, rfl⟩ | ⟨mid, after, rfl, ho⟩)
      · exact ⟨[], es, rfl, by rwa [List.append_nil]⟩
      · exact ⟨f :: mid, after, rfl, by rwa [List.append_assoc] at ho⟩
    · rintro ⟨mid, after, hes, ho⟩
      cases mid with
      | nil =>
        cases hes
        exact .inl ⟨by rwa [List.append_nil] at ho, rfl⟩
      | cons g mid =>
        cases hes
        exact .inr ⟨mid, after, rfl, by rwa [List.append_assoc]⟩

/-- **The entries of a log that a suite owns.** -/
theorem mem_owned : e ∈ owned suite es ↔
    ∃ before after, es = before ++ e :: after ∧ owner before e = some suite := mem_ownedFrom

/-- **What one entry does to a tally**: it adds to the counts of its owner, if it has one. -/
theorem countFrom_cons (before : List Entry) (t : Tally) (e : Entry) (later : List Entry) :
    countFrom (lastNamed before) t (e :: later) =
      countFrom (lastNamed (before ++ [e]))
        ((owner before e).elim t fun suite => t.add suite e.marker) later := by
  rw [countFrom, lastNamed_concat]
  cases ho : owner before e with
  | none =>
    -- an entry without owner comes before every start by name, and is none itself
    have hl : lastNamed before = none := (Option.or_eq_none_iff.1 ho).2
    unfold owner at ho
    rw [ho, hl, ite_self]
    rfl
  | some suite =>
    unfold owner at ho
    rw [ho]
    rfl

/-- A log may be counted in two parts. -/
theorem countFrom_append (before : List Entry) (t : Tally) (es fs : List Entry) :
    countFrom (lastNamed before) t (es ++ fs) =
      countFrom (lastNamed (before ++ es)) (countFrom (lastNamed before) t es) fs := by
  induction es generalizing before t with
  | nil => rw [List.append_nil]; rfl
  | cons e es ih =>
    rw [List.cons_append, countFrom_cons, ih, countFrom_cons, List.append_assoc]
    rfl

/-- **What a log does to a tally**: to the counts of each suite it adds what the suite owns. -/
theorem get?_countFrom (before : List Entry) (t : Tally) (es : List Entry) (name : String) :
    (countFrom (lastNamed before) t es).get? name =
      Option.merge .plus (t.get? name) (listed? (tallied (ownedFrom before name es))) := by
  induction es generalizing before t with
  | nil => exact Option.merge_none_right.symm
  | cons e es ih =>
    rw [countFrom_cons, ih, ownedFrom]
    cases ho : owner before e with
    | none => rfl
    | some suite =>
      rw [Option.elim_some, get?_add]
      by_cases h : suite = name
      · have hcons : ∀ fs, tallied (e :: fs) = (tallied [e]).plus (tallied fs) :=
          fun fs => tallied_append [e] fs
        have hassoc : Std.Associative (Option.merge SuiteCounts.plus) := inferInstance
        rw [if_pos h, if_pos (congrArg some h), hassoc.assoc, ← listed?_plus, ← hcons]
      · rw [if_neg h, if_neg fun hs => h (Option.some.inj hs)]

theorem countSuites_append (es fs : List Entry) :
    countSuites (es ++ fs) = countFrom (lastNamed es) (countSuites es) fs :=
  countFrom_append [] .empty es fs

/-- **Each suite has the counts of the entries that it owns.** -/
theorem get?_countSuites (es : List Entry) (suite : String) :
    (countSuites es).get? suite = listed? (tallied (owned suite es)) := by
  have h := get?_countFrom [] .empty es suite
  rwa [Keyed.get?_empty, Option.merge_none_left] at h

/-- What came before a suite that was started by name does not matter behind it. -/
theorem ownedFrom_of_named (xs : List Entry) (suite : String) {ys : List Entry}
    (h : lastNamed ys ≠ none) (es : List Entry) :
    ownedFrom (xs ++ ys) suite es = ownedFrom ys suite es := by
  induction es generalizing ys with
  | nil => rfl
  | cons e es ih =>
    have howner : owner (xs ++ ys) e = owner ys e := by
      obtain ⟨name, hname⟩ := Option.ne_none_iff_exists'.1 h
      unfold owner
      rw [lastNamed_append, hname]
      rfl
    have hlater : lastNamed (ys ++ [e]) ≠ none := by
      rw [lastNamed_append]
      exact fun hn => h (Option.or_eq_none_iff.1 hn).2
    rw [ownedFrom, ownedFrom, howner, List.append_assoc, ih hlater]

/-- A log that starts with a suite by its name owes nothing to what came before it. -/
theorem ownedFrom_of_start (xs : List Entry) (suite : String) {start : Entry}
    (hm : start.marker = .suiteStart) (hs : start.suite ≠ none) (ys : List Entry) :
    ownedFrom xs suite (start :: ys) = owned suite (start :: ys) := by
  obtain ⟨name, hname⟩ := Option.ne_none_iff_exists'.1 hs
  have hnamed : lastNamed [start] ≠ none := by
    rw [lastNamed_singleton, if_pos hm]
    exact hs
  have howner : ∀ before, owner before start = some name := by
    intro before
    unfold owner
    rw [hname]
    rfl
  rw [owned, ownedFrom, ownedFrom, howner, howner, ownedFrom_of_named xs suite hnamed]
  rfl

/-- **The tally of a client log is exact.** Each suite has the counts of the entries that it owns,
and is listed if anything was counted; an entry that no suite owns is counted nowhere; and where a
log goes on with the start of a suite by its name, the tallies of both parts add up. -/
theorem countSuites_exact :
    (∀ es suite, ((countSuites es).get? suite).getD {} = tallied (owned suite es) ∧
      (suite ∈ (countSuites es).keys ↔ tallied (owned suite es) ≠ {})) ∧
    (∀ before e after, owner before e = none →
      countSuites (before ++ e :: after) = countSuites (before ++ after)) ∧
    (∀ xs start ys, start.marker = .suiteStart → start.suite ≠ none → ∀ suite,
      (countSuites (xs ++ start :: ys)).get? suite =
        Option.merge .plus ((countSuites xs).get? suite)
          ((countSuites (start :: ys)).get? suite)) := by
  refine ⟨fun es suite => ?_, fun before e after ho => ?_, fun xs start ys hm hs suite => ?_⟩
  · have hget := get?_countSuites es suite
    rw [Keyed.mem_keys, hget]
    unfold listed?
    split_ifs with hzero <;> simp [hzero]
  · have hlast : lastNamed (before ++ [e]) = lastNamed before := by
      rw [lastNamed_concat, ho, (Option.or_eq_none_iff.1 ho).2, ite_self]
    rw [countSuites_append, countSuites_append, countFrom_cons, ho, hlast]
    rfl
  · rw [countSuites_append, get?_countFrom, ownedFrom_of_start xs suite hm hs,
      ← get?_countSuites (start :: ys)]

/-- An entry without a message. -/
def bareEntry (marker : Marker) (suite : Option String) : Entry :=
  { timestamp := none, marker, suite, text := "" }

/-- A log in which two suites take turns and one of them starts over, without its name. -/
def interleavedLog : List Entry :=
  [bareEntry .suiteStart (some "A"), bareEntry .wrongStatus none, bareEntry .suiteStart (some "B"),
   bareEntry .exception none, bareEntry .suitePassed (some "A"), bareEntry .suiteStart none,
   bareEntry .suiteFailed none]

theorem countSuites_exact_interleavedLog :
    ((countSuites interleavedLog).get? "B").getD {} = ⟨2, 0, 1, 0, 1⟩ ∧
      (owner [] (bareEntry .suiteFailed none) = none ∧
        countSuites ([] ++ bareEntry .suiteFailed none :: interleavedLog) =
          countSuites ([] ++ interleavedLog)) ∧
      (countSuites (interleavedLog ++ interleavedLog)).get? "A" =
        Option.merge .plus (some ⟨1, 1, 0, 1, 0⟩) (some ⟨1, 1, 0, 1, 0⟩) := by
  obtain ⟨hcounts, hstray, hsum⟩ := countSuites_exact
  have howner : owner [] (bareEntry .suiteFailed none) = none := by decide
  have hstart : (bareEntry .suiteStart (some "A")).suite ≠ none := by decide
  refine ⟨(hcounts interleavedLog "B").1.trans (by decide), ⟨howner, hstray _ _ _ howner⟩, ?_⟩
  exact (hsum interleavedLog (bareEntry .suiteStart (some "A")) interleavedLog.tail rfl hstart
    "A").trans (by decide +kernel)

end RunAudit.Check.Suites
