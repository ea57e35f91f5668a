import Mathlib.Data.List.Forall2
import Mathlib.Data.List.TakeWhile
import RunAudit.Proofs.Reading

/-!
# Folding is local

A cursor decides whether a line continues an entry by looking at the entry as it was put together so
far. The decision is the same if only the line itself and the line right before it are looked at: a
line without a timestamp continues the entry before it if it is shaped like a stack trace, or if the
line before it is a structured exception. Blank lines do not count.

* `continues`: the local rule; `isContinuation`: the rule at a place of a log.
* `continuedBy_eq`: what a cursor asks of the entry so far is the local rule.
* `exists_passages`: a log falls into passages, one for each entry, by the local rule.
* `folding_is_local`: what a log has come to when it has been read to its end.
-/

namespace RunAudit.Log

open RunAudit.Text RunAudit.Time

/-! ### Blanks at the end of a line -/

theorem exists_blanks (s : List Char) :
    ∃ blanks, s = trimEnd s ++ blanks ∧ ∀ c ∈ blanks, isBlank c = true := by
  refine ⟨(s.reverse.takeWhile isBlank).reverse, ?_, ?_⟩
  · unfold trimEnd trimStart
    rw [← List.reverse_append, List.takeWhile_append_dropWhile, List.reverse_reverse]
  · intro c hc
    exact List.mem_takeWhile_imp (List.mem_reverse.1 hc)

theorem trimEnd_eq_nil {s : List Char} : trimEnd s = [] ↔ s.all isBlank = true := by
  unfold trimEnd trimStart
  rw [List.reverse_eq_nil_iff, List.dropWhile_eq_nil_iff, List.all_eq_true]
  simp only [List.mem_reverse]

/-- Blanks behind a text do not matter to a beginning that does not end with a blank. -/
theorem prefix_append_blanks (start : List Char) {s blanks : List Char} {c : Char}
    (hc : isBlank c = false) (hb : ∀ c ∈ blanks, isBlank c = true) :
    start ++ [c] <+: s ++ blanks ↔ start ++ [c] <+: s := by
  refine ⟨fun h => ?_, fun h => h.trans (List.prefix_append _ _)⟩
  rcases List.prefix_or_prefix_of_prefix h (List.prefix_append s blanks) with hs | hs
  · exact hs
  · -- otherwise the beginning reaches into the blanks, and its last character is one of them
    obtain ⟨rest, hrest⟩ := hs
    rw [← hrest, List.prefix_append_right_inj] at h
    rcases List.eq_nil_or_concat rest with rfl | ⟨init, d, rfl⟩
    · refine ⟨[], ?_⟩
      rw [List.append_nil, ← hrest, List.append_nil]
    · rw [List.concat_eq_append, ← List.append_assoc] at hrest
      obtain ⟨-, hd⟩ := List.append_inj' hrest rfl
      obtain rfl : d = c := by simpa using hd
      have hblank := hb d (h.subset (by simp))
      rw [hc] at hblank
      cases hblank

/-- Whether a line is shaped like a stack trace does not depend on the blanks at its end, as long as
it is not blank altogether. -/
theorem isTraceLine_trimEnd {line : String} (h : trimEnd line.toList ≠ []) :
    isTraceLine (.ofList (trimEnd line.toList)) = isTraceLine line := by
  obtain ⟨blanks, hline, hblanks⟩ := exists_blanks line.toList
  have hstart : trimStart (trimEnd line.toList) ≠ [] := by
    intro hs
    refine h (trimEnd_eq_nil.2 ?_)
    rw [hline, List.all_append, Bool.and_eq_true, List.all_eq_true, List.all_eq_true]
    exact ⟨fun c hc => List.dropWhile_eq_nil_iff.1 hs c hc, hblanks⟩
  generalize trimEnd line.toList = s at h hline hstart
  have hhead : line.toList.head? = s.head? := by
    rw [hline, List.head?_append_of_ne_nil s h]
  have hcause : "Caused by".toList <+: line.toList ↔ "Caused by".toList <+: s :=
    hline ▸ prefix_append_blanks "Caused b".toList (c := 'y') (by decide) hblanks
  have htrim : trimStart line.toList = trimStart s ++ blanks := by
    unfold trimStart at hstart ⊢
    rw [hline, List.dropWhile_append, if_neg (by simpa using hstart)]
  have hdots : "...".toList <+: trimStart line.toList ↔ "...".toList <+: trimStart s :=
    htrim ▸ prefix_append_blanks "..".toList (c := '.') (by decide) hblanks
  unfold isTraceLine
  rw [String.toList_ofList, Bool.eq_iff_iff]
  simp only [Bool.or_eq_true, List.isPrefixOf_iff_prefix, hhead, hcause, hdots]

/-! ### The rule -/

/-- Whether a line has a timestamp of its own. -/
def isStructured (line : String) : Bool := (Entry.parse .platform line).any (·.timestamp.isSome)

/-- Whether a line has a timestamp of its own and reports an exception. -/
def isStructuredException (line : String) : Bool :=
  (Entry.parse .platform line).any fun e => e.timestamp.isSome && e.isException

/-- Whether a line continues the entry of the line before it. -/
def continues (previous line : String) : Bool :=
  ! isStructured line && (isTraceLine line || isStructuredException previous)

/-- Whether the line at a place of a log continues an entry, as far as it and the line before it
tell. -/
def isContinuation (lines : List String) : Nat → Bool
  | 0 => false
  | j + 1 =>
    match lines[j]?, lines[j + 1]? with
    | some previous, some line => continues previous line
    | _, _ => false

/-- A line that is not blank, and the entry on it. -/
def ParsesTo (line : String) (e : Entry) : Prop := Entry.parse .platform line = some e

variable {line : String} {e : Entry}

theorem parse_eq_none : Entry.parse .platform line = none ↔ line.toList.all isBlank = true := by
  rw [← trimEnd_eq_nil]
  unfold Entry.parse Entry.parsePlatform
  cases trimEnd line.toList <;> simp

/-- What is known of the entry on a line, apart from what a structured line says. -/
theorem ParsesTo.entry (h : ParsesTo line e) :
    trimEnd line.toList ≠ [] ∧ e.continuation = [] ∧
      (e.timestamp = none → e.text = .ofList (trimEnd line.toList)) := by
  unfold ParsesTo Entry.parse Entry.parsePlatform at h
  simp only at h
  split at h
  · cases h
  · next hne =>
    refine ⟨hne, ?_⟩
    split at h <;> cases h
    · exact ⟨rfl, fun ht => by cases ht⟩
    · exact ⟨rfl, fun _ => rfl⟩

theorem ParsesTo.isStructured_eq (h : ParsesTo line e) :
    isStructured line = e.timestamp.isSome := by
  unfold isStructured
  rw [h]
  rfl

theorem isStructuredException_eq_false (h : isStructured line = false) :
    isStructuredException line = false := by
  unfold isStructured at h
  unfold isStructuredException
  cases hp : Entry.parse .platform line with
  | none => rfl
  | some e =>
    rw [hp, Option.any_some] at h
    rw [Option.any_some, h, Bool.false_and]

theorem ParsesTo.isStructuredException_eq (h : ParsesTo line e) :
    isStructuredException line = (e.timestamp.isSome && e.isException) := by
  unfold isStructuredException
  rw [h]
  rfl

/-! ### Passages -/

/-- The lines of one entry, as they stand in the log. -/
structure Passage where
  first : String
  more : List String := []

namespace Passage

/-- The lines of a passage. -/
def lines (p : Passage) : List String := p.first :: p.more

/-- For each line of a passage, whether it continues the entry. -/
def marks (p : Passage) : List Bool := false :: p.more.map fun _ => true

/-- The last line of a passage. -/
def last (p : Passage) : String := p.more.getLastD p.first

/-- A passage with one more line. -/
def extend (p : Passage) (line : String) : Passage := { p with more := p.more ++ [line] }

/-- Whether the entry of a passage is an exception. -/
def raises (p : Passage) : Bool := (Entry.parse .platform p.first).any (·.isException)

/-- **The entry that a passage amounts to**: the one on its first line, with the other lines folded
in without the blanks at their end. If it has no timestamp of its own it may take an earlier one. -/
def Yields (p : Passage) (e : Entry) : Prop :=
  ∃ own last, Entry.parse .platform p.first = some own ∧
    e = { own.stamp last with
      continuation := p.more.map fun line => .ofList (trimEnd line.toList) }

@[simp] theorem lines_extend (p : Passage) (line : String) :
    (p.extend line).lines = p.lines ++ [line] := rfl

@[simp] theorem marks_extend (p : Passage) (line : String) :
    (p.extend line).marks = p.marks ++ [true] := by
  simp [marks, extend]

@[simp] theorem last_extend (p : Passage) (line : String) : (p.extend line).last = line := by
  simp [last, extend]

theorem Yields.isException_eq {p : Passage} (h : p.Yields e) : p.raises = e.isException := by
  obtain ⟨own, last, hparse, rfl⟩ := h
  unfold raises
  rw [hparse]
  rfl

end Passage

/-- A passage read as a block of entries. Lines that continue an entry have no timestamp. -/
structure Passage.ReadsAs (p : Passage) (b : Block) : Prop where
  first : ParsesTo p.first b.first
  more : List.Forall₂ ParsesTo p.more b.more
  unstamped : ∀ line ∈ p.more, isStructured line = false

variable {p : Passage} {b : Block}

theorem readsAs_start (h : ParsesTo line e) : Passage.ReadsAs { first := line } (.start e) :=
  ⟨h, .nil, by simp⟩

theorem Passage.ReadsAs.extend (h : p.ReadsAs b) (hl : ParsesTo line e)
    (hs : isStructured line = false) :
    (p.extend line).ReadsAs (b.extend e) := by
  refine ⟨h.first, List.rel_append h.more (.cons hl .nil), ?_⟩
  intro line' hline'
  rcases List.mem_append.1 hline' with hp | hp
  · exact h.unstamped line' hp
  · rw [List.mem_singleton.1 hp, hs]

theorem Passage.ReadsAs.yields (h : p.ReadsAs b) (last : Option Instant) :
    p.Yields (b.entry.stamp last) := by
  refine ⟨b.first, last, h.first, ?_⟩
  have hmore : ∀ {lines : List String} {es : List Entry}, List.Forall₂ ParsesTo lines es →
      (∀ line ∈ lines, isStructured line = false) →
      es.map (·.text) = lines.map fun line => .ofList (trimEnd line.toList) := by
    intro lines es hp
    induction hp with
    | nil => exact fun _ => rfl
    | cons hl _ ih =>
      intro hs
      obtain ⟨hs, hrest⟩ := List.forall_mem_cons.1 hs
      rw [hl.isStructured_eq, Option.isSome_eq_false_iff, Option.isNone_iff_eq_none] at hs
      rw [List.map_cons, List.map_cons, ih hrest, hl.entry.2.2 hs]
  unfold Block.entry
  rw [h.first.entry.2.1, List.nil_append, hmore h.more h.unstamped]
  rfl

/-- **What a cursor asks of the entry so far is the local rule.** Only right behind a structured
exception does the entry so far have no line folded in, and only then is the line before a
structured one. -/
theorem continuedBy_eq (h : p.ReadsAs b) (hl : ParsesTo line e) :
    b.entry.continuedBy e = continues p.last line := by
  have hstructured := hl.isStructured_eq
  obtain ⟨hne, -, htext⟩ := hl.entry
  unfold Entry.continuedBy continues
  cases ht : e.timestamp with
  | some t => rw [hstructured, ht]; rfl
  | none =>
    rw [hstructured, ht, htext ht, isTraceLine_trimEnd hne, Bool.or_comm (isTraceLine line)]
    congr 2
    unfold Block.entry
    by_cases hp : p.more = []
    · -- the passage is its first line
      have hmore := h.more
      rw [hp, List.forall₂_nil_left_iff] at hmore
      have hlast : p.last = p.first := by unfold Passage.last; rw [hp]; rfl
      rw [hlast, h.first.isStructuredException_eq, hmore, h.first.entry.2.1]
      simp [Entry.isException, Bool.and_comm]
    · -- the last line was folded in, so it has no timestamp
      have hmore : b.more ≠ [] := by
        rw [← List.length_pos_iff, ← h.more.length_eq, List.length_pos_iff]
        exact hp
      have hlast : p.last ∈ p.more := by
        unfold Passage.last
        rw [List.getLastD_eq_getLast?, List.getLast?_eq_some_getLast hp]
        exact List.getLast_mem hp
      rw [isStructuredException_eq_false (h.unstamped _ hlast)]
      simp [hmore]

/-! ### Whole logs -/

/-- Blank lines do not count. -/
theorem segments_entries {lines : List Line} (h : Decodable lines) (b : Option Block) :
    segments b lines = segments b ((lines.filterMap Line.entry?).map .entry) := by
  induction lines generalizing b with
  | nil => rfl
  | cons line lines ih =>
    have hrest : Decodable lines := fun hm => h (List.mem_cons_of_mem _ hm)
    cases line with
    | blank => exact ih hrest b
    | undecodable => exact absurd List.mem_cons_self h
    | entry e =>
      rw [List.filterMap_cons, Line.entry?, List.map_cons]
      cases b with
      | none => rw [segments, segments, ih hrest]
      | some b => rw [segments, segments, ih hrest, ih hrest]

/-- The lines of a text that are not blank. -/
def writtenLines (text : String) : List String :=
  ((pieces '\n' text.toList).map String.ofList).filter fun line => ! line.toList.all isBlank

theorem parsesTo_writtenLines (text : String) :
    List.Forall₂ ParsesTo (writtenLines text)
      ((linesOf .platform (utf8 text)).filterMap Line.entry?) := by
  have hentry : Line.entry? ∘ Line.ofText .platform = Entry.parse .platform := by
    funext line
    unfold Function.comp Line.ofText
    cases Entry.parse .platform line <;> rfl
  unfold writtenLines
  rw [linesOf_utf8, List.filterMap_map, hentry]
  induction (pieces '\n' text.toList).map String.ofList with
  | nil => exact .nil
  | cons line lines ih =>
    cases hparse : Entry.parse .platform line with
    | none =>
      rw [List.filterMap_cons_none hparse,
        List.filter_cons_of_neg (by simpa using parse_eq_none.1 hparse)]
      exact ih
    | some e =>
      have hwritten : ¬ line.toList.all isBlank = true := by
        rw [← parse_eq_none, hparse]
        exact Option.some_ne_none e
      rw [List.filterMap_cons_some hparse, List.filter_cons_of_pos (by simpa using hwritten)]
      exact .cons hparse ih

/-- **A log falls into passages by the local rule**, with a passage open at its start. -/
theorem exists_passages {lines : List String} {es : List Entry}
    (h : List.Forall₂ ParsesTo lines es) (ho : p.ReadsAs b) :
    ∃ (passages : List Passage) (bs : List Block),
      segments (some b) (es.map .entry) = bs.map .whole ∧ List.Forall₂ Passage.ReadsAs passages bs ∧
        passages.flatMap Passage.lines = p.lines ++ lines ∧
        passages.flatMap Passage.marks =
          p.marks ++ List.zipWith continues (p.last :: lines) lines := by
  -- along the lines, the open passage is kept in step with the open block
  induction h generalizing p b with
  | nil => exact ⟨[p], [b], rfl, .cons ho .nil, by simp, by simp⟩
  | @cons line e lines es hl _ ih =>
    have hrule := continuedBy_eq ho hl
    rw [List.map_cons, segments]
    by_cases hc : b.entry.continuedBy e = true
    · have hs : isStructured line = false := by
        rw [hrule] at hc
        simpa using (Bool.and_eq_true_iff.1 hc).1
      obtain ⟨passages, bs, h1, h2, h3, h4⟩ := ih (ho.extend hl hs)
      refine ⟨passages, bs, ?_, h2, ?_, ?_⟩
      · rw [if_pos hc, h1]
      · rw [h3, Passage.lines_extend, List.append_assoc]
        rfl
      · rw [h4, Passage.marks_extend, Passage.last_extend, List.append_assoc,
          List.zipWith_cons_cons, ← hrule, hc]
        rfl
    · obtain ⟨passages, bs, h1, h2, h3, h4⟩ := ih (readsAs_start hl)
      refine ⟨p :: passages, b :: bs, ?_, .cons ho h2, ?_, ?_⟩
      · rw [if_neg hc, h1, List.map_cons]
      · rw [List.flatMap_cons, h3]
        rfl
      · rw [List.flatMap_cons, h4, List.zipWith_cons_cons, ← hrule, Bool.eq_false_iff.2 hc]
        rfl

theorem getElem?_marks {first : String} {lines : List String} {j : Nat}
    (hj : j < (first :: lines).length) :
    (false :: List.zipWith continues (first :: lines) lines)[j]? =
      some (isContinuation (first :: lines) j) := by
  cases j with
  | zero => rfl
  | succ j =>
    rw [List.length_cons, Nat.add_lt_add_iff_right] at hj
    have hprevious : j < (first :: lines).length := Nat.lt_succ_of_lt hj
    simp only [isContinuation, List.getElem?_cons_succ]
    rw [List.getElem?_zipWith, List.getElem?_eq_getElem hj, List.getElem?_eq_getElem hprevious]

theorem passages_of_text (text : String) :
    ∃ (passages : List Passage),
      List.Forall₂ Passage.ReadsAs passages (blocks (linesOf .platform (utf8 text))) ∧
        passages.flatMap Passage.lines = writtenLines text ∧
        ∀ j < (writtenLines text).length, (passages.flatMap Passage.marks)[j]? =
          some (isContinuation (writtenLines text) j) := by
  have hp := parsesTo_writtenLines text
  unfold blocks
  rw [segments_entries (decodable_linesOf .platform text)]
  revert hp
  generalize (linesOf .platform (utf8 text)).filterMap Line.entry? = es
  generalize writtenLines text = lines
  intro hp
  cases hp with
  | nil => exact ⟨[], .nil, rfl, fun j hj => absurd hj (Nat.not_lt_zero j)⟩
  | @cons line e lines es hl hrest =>
    obtain ⟨passages, bs, h1, h2, h3, h4⟩ := exists_passages hrest (readsAs_start hl)
    refine ⟨passages, ?_, h3, ?_⟩
    · have hwhole : Segment.block? ∘ Segment.whole = some := rfl
      rw [List.map_cons, segments, h1, List.filterMap_map, hwhole, List.filterMap_some]
      exact h2
    · intro j hj
      rw [h4]
      exact getElem?_marks hj

theorem yields_stampAll {passages : List Passage} {bs : List Block}
    (h : List.Forall₂ Passage.ReadsAs passages bs) (last : Option Instant) :
    List.Forall₂ Passage.Yields passages (stampAll last (bs.map Block.entry)) := by
  induction h generalizing last with
  | nil => exact .nil
  | cons hr _ ih => exact .cons (hr.yields last) (ih _)

/-- **Folding is local and loses nothing.** Reading a text to its end succeeds. It comes to one
entry for each of some passages, which together are the lines of the text that are not blank, each
once and in order. Whether a line continues an entry, instead of starting one, is decided by it and
the line before it: it has no timestamp, and it is shaped like a stack trace or follows a structured
exception. A passage that starts with an exception is collected as one exception. -/
theorem folding_is_local (text : String) :
    let lines := writtenLines text
    let scan := (Cursor.ofText .platform text).collect fun _ => true
    scan.failure = none ∧ scan.cursor.exhausted = true ∧
      ∃ passages : List Passage,
        passages.flatMap Passage.lines = lines ∧
        (∀ j < lines.length,
          (passages.flatMap Passage.marks)[j]? = some (isContinuation lines j)) ∧
        List.Forall₂ Passage.Yields passages scan.found ∧
        List.Forall₂ Passage.Yields (passages.filter Passage.raises) scan.cursor.exceptions := by
  intro lines scan
  obtain ⟨hfollows, hclear⟩ := Cursor.follows_ofText .platform text
  rcases Cursor.collect_cases (fun _ => true) hfollows with
    ⟨hfailure, -, -, hfound, hend, hexhausted⟩ | ⟨-, hnot, -⟩
  · obtain ⟨passages, hreads, hlines, hmarks⟩ := passages_of_text text
    have hyields := yields_stampAll hreads none
    rw [List.drop_zero, List.filter_eq_self.2 fun _ _ => rfl] at hfound
    refine ⟨hfailure, hexhausted, passages, hlines, hmarks, hfound ▸ hyields, ?_⟩
    have hraises : ∀ ⦃p e⦄, Passage.Yields p e → (p.raises = true ↔ e.isException = true) := by
      intro p e h
      rw [h.isException_eq]
    rw [hend.stands.exceptions, List.take_length]
    exact List.rel_filter hraises hyields
  · exact absurd hclear hnot

end RunAudit.Log
