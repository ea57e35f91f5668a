import Mathlib.Data.List.SplitBy
import RunAudit.Proofs.Folding

/-!
# Entries take the time of the line before them

An entry whose first line has no timestamp takes that of the nearest line before it that has one. A
cursor does this when it inspects an entry, while it already holds the next one. The lines of a log
fall into entries as if nothing was ever taken over: which lines belong together is a matter of the
lines as they are written.

* `leads`: the rule for two neighbouring lines of either layout; `parsedLines`: the lines.
* `splitBy_leads`: the entries of a log are its lines split by that rule.
* `getElem?_stampAll`: the timestamp that is carried on to each entry.
* `Heir`: the entry at some place, put together from the lines alone.
* `isSome_timestamp`: which entries always have a timestamp.
* `timestamps_inherited`: what a cursor returns and what it keeps.
-/

namespace RunAudit.Log

open RunAudit.Text RunAudit.Time

/-- The lines of a text that are not blank, each parsed on its own. -/
def parsedLines (layout : Layout) (text : String) : List Entry :=
  ((pieces '\n' text.toList).map String.ofList).filterMap (Entry.parse layout)

/-- Whether a line continues the entry of the line before it, judged by the two as they are
written. -/
def leads (previous line : Entry) : Bool :=
  line.timestamp.isNone &&
    ((previous.isException && previous.timestamp.isSome) || isTraceLine line.text)

/-- The timestamp of the nearest line that has one, looking back from the end of some lines. -/
def nearest (lines : List Entry) : Option Instant := lines.reverse.findSome? (·.timestamp)

/-- **`e` is the entry of the group at place `i`**, whose first line is `first`: that line with the
texts of the others folded in. Without a timestamp of its own it takes that of the nearest line
before it that has one. -/
def Heir (groups : List (List Entry)) (i : Nat) (first e : Entry) : Prop :=
  ∃ more, groups[i]? = some (first :: more) ∧
    e = { first with
      timestamp := first.timestamp.or (nearest (groups.take i).flatten)
      continuation := more.map (·.text) }

variable {layout : Layout} {text line : String} {e : Entry} {es : List Entry} {b : Block}

theorem entry?_linesOf_utf8 (layout : Layout) (text : String) :
    (linesOf layout (utf8 text)).filterMap Line.entry? = parsedLines layout text := by
  have hentry : Line.entry? ∘ Line.ofText layout = Entry.parse layout := by
    funext line
    unfold Function.comp Line.ofText
    cases Entry.parse layout line <;> rfl
  rw [linesOf_utf8, List.filterMap_map, hentry]
  rfl

/-- A line of a client log is one of a platform log, but for the suite and the text. -/
theorem exists_parse_platform (h : Entry.parse layout line = some e) :
    ∃ own, Entry.parse .platform line = some own ∧ own.timestamp = e.timestamp ∧
      own.marker = e.marker ∧ own.continuation = e.continuation := by
  cases layout with
  | platform => exact ⟨e, h, rfl, rfl, rfl⟩
  | client =>
    rw [Entry.parse_client] at h
    obtain ⟨own, hown, rfl⟩ := Option.map_eq_some_iff.1 h
    refine ⟨own, hown, ?_⟩
    unfold Entry.withSuite
    split <;> exact ⟨rfl, rfl, rfl⟩

theorem continuation_of_parse (h : Entry.parse layout line = some e) : e.continuation = [] := by
  obtain ⟨own, hown, -, -, hc⟩ := exists_parse_platform h
  rw [← hc]
  exact (ParsesTo.entry hown).2.1

/-- A line without a timestamp is classified by the exceptions that it mentions. -/
theorem marker_of_parse (h : Entry.parse layout line = some e) (ht : e.timestamp = none) :
    e.marker = .exception ∨ e.marker = .socketException ∨ e.marker = .unstructured := by
  obtain ⟨own, hown, hown', hm, -⟩ := exists_parse_platform h
  rw [← hown'] at ht
  rw [← hm]
  unfold Entry.parse Entry.parsePlatform at hown
  simp only at hown
  split at hown
  · cases hown
  · split at hown <;> cases hown
    · cases ht
    · unfold mentionedException
      split_ifs <;> simp

theorem Block.lines_ne_nil (b : Block) : b.lines ≠ [] := List.cons_ne_nil _ _

/-- A block whose lines belong together by the rule. -/
structure Joined (b : Block) : Prop where
  bare : b.first.continuation = []
  unstamped : ∀ line ∈ b.more, line.timestamp = none
  chain : b.lines.IsChain fun previous line => leads previous line

theorem joined_start (h : e.continuation = []) : Joined (.start e) :=
  ⟨h, by simp [Block.start], by simp [Block.start, Block.lines]⟩

/-- **What is asked of the entry so far is the rule for its last line.** -/
theorem Joined.continuedBy_eq (h : Joined b) {last : Entry} (hl : b.lines.getLast? = some last)
    (next : Entry) : b.entry.continuedBy next = leads last next := by
  unfold Entry.continuedBy leads
  congr 2
  unfold Block.lines at hl
  rcases List.eq_nil_or_concat b.more with hm | ⟨init, m, hm⟩
  · rw [hm] at hl
    cases hl
    simp [Block.entry, hm, h.bare, Entry.isException]
  · -- a line has been folded in, and it has no timestamp
    rw [List.concat_eq_append] at hm
    rw [hm, ← List.cons_append, List.getLast?_concat] at hl
    cases hl
    have hlast : last.timestamp = none := h.unstamped last (by simp [hm])
    simp [Block.entry, hm, hlast]

theorem Joined.extend (h : Joined b) {next : Entry} (hc : b.entry.continuedBy next = true) :
    Joined (b.extend next) := by
  refine ⟨h.bare, ?_, ?_⟩
  · intro line hline
    rcases List.mem_append.1 hline with hline | hline
    · exact h.unstamped line hline
    · unfold Entry.continuedBy at hc
      rw [List.mem_singleton.1 hline]
      simpa using (Bool.and_eq_true_iff.1 hc).1
  · rw [Block.lines_extend, List.isChain_append]
    refine ⟨h.chain, List.isChain_singleton _, ?_⟩
    rintro last hlast line hline
    obtain rfl : next = line := by simpa using hline
    rwa [← h.continuedBy_eq hlast]

/-- The segments of lines behind an open block are the lines split by the rule. -/
theorem Joined.splitBy_leads (h : Joined b) (hes : ∀ e ∈ es, e.continuation = []) :
    ((segments (some b) (es.map .entry)).filterMap Segment.block?).map Block.lines =
      (b.lines ++ es).splitBy leads := by
  induction es generalizing b with
  | nil =>
    rw [List.append_nil, List.splitBy_of_isChain b.lines_ne_nil h.chain]
    rfl
  | cons e es ih =>
    obtain ⟨he, hrest⟩ := List.forall_mem_cons.1 hes
    rw [List.map_cons, segments]
    by_cases hc : b.entry.continuedBy e = true
    · rw [if_pos hc, ih (h.extend hc) hrest, Block.lines_extend, List.append_assoc]
      rfl
    · have hcut : ∀ last ∈ b.lines.getLast?, leads last e = false := by
        intro last hlast
        rw [← h.continuedBy_eq hlast]
        exact Bool.not_eq_true _ ▸ hc
      rw [if_neg hc, List.splitBy_append_cons es hcut,
        List.splitBy_of_isChain b.lines_ne_nil h.chain]
      have hrest := ih (joined_start he) hrest
      exact congrArg (b.lines :: ·) hrest

/-- **The entries of a text are its lines split by the rule**, whatever timestamps they take. -/
theorem splitBy_leads (layout : Layout) (text : String) :
    (blocks (linesOf layout (utf8 text))).map Block.lines =
      (parsedLines layout text).splitBy leads := by
  have hbare : ∀ e ∈ parsedLines layout text, e.continuation = [] := by
    intro e he
    obtain ⟨line, -, hp⟩ := List.mem_filterMap.1 he
    exact continuation_of_parse hp
  unfold blocks
  rw [segments_entries (decodable_linesOf layout text), entry?_linesOf_utf8]
  revert hbare
  generalize parsedLines layout text = es
  intro hbare
  cases es with
  | nil => rfl
  | cons e es =>
    obtain ⟨he, hrest⟩ := List.forall_mem_cons.1 hbare
    rw [List.map_cons, segments, (joined_start he).splitBy_leads hrest]
    rfl

/-- In a group only the first line may have a timestamp. -/
theorem unstamped_of_isChain {first : Entry} {more : List Entry}
    (h : (first :: more).IsChain fun previous line => leads previous line) :
    ∀ line ∈ more, line.timestamp = none := by
  induction more generalizing first with
  | nil => simp
  | cons next more ih =>
    obtain ⟨hn, hrest⟩ := List.isChain_cons_cons.1 h
    refine List.forall_mem_cons.2 ⟨?_, ih hrest⟩
    unfold leads at hn
    simpa using (Bool.and_eq_true_iff.1 hn).1

/-- **In an entry of a text only the first line may have a timestamp.** -/
theorem unstamped_of_mem_blocks (h : b ∈ blocks (linesOf layout (utf8 text))) :
    ∀ line ∈ b.more, line.timestamp = none := by
  have hgroup : b.lines ∈ (parsedLines layout text).splitBy leads :=
    splitBy_leads layout text ▸ List.mem_map_of_mem h
  exact unstamped_of_isChain (List.isChain_of_mem_splitBy hgroup)

theorem nearest_append (lines more : List Entry) :
    nearest (lines ++ more) = (nearest more).or (nearest lines) := by
  simp [nearest, List.findSome?_append]

theorem nearest_eq_none {lines : List Entry} :
    nearest lines = none ↔ ∀ line ∈ lines, line.timestamp = none := by
  simp [nearest]

/-- **The timestamp that is carried on to each entry** is that of the nearest entry before it that
has one. -/
theorem getElem?_stampAll (last : Option Instant) (es : List Entry) (i : Nat) :
    (stampAll last es)[i]? = es[i]?.map (·.stamp ((nearest (es.take i)).or last)) := by
  induction es generalizing last i with
  | nil => rfl
  | cons e es ih =>
    cases i with
    | zero => rfl
    | succ i =>
      have hfirst : nearest [e] = e.timestamp := by
        unfold nearest
        cases ht : e.timestamp <;> simp [ht]
      rw [stampAll, List.getElem?_cons_succ, ih, List.getElem?_cons_succ, List.take_succ_cons,
        ← List.singleton_append, nearest_append, hfirst, Option.or_assoc]

/-- Lines that continue an entry do not carry a timestamp on. -/
theorem nearest_map_entry {bs : List Block}
    (h : ∀ b ∈ bs, ∀ line ∈ b.more, line.timestamp = none) :
    nearest (bs.map Block.entry) = nearest (bs.flatMap Block.lines) := by
  induction bs with
  | nil => rfl
  | cons b bs ih =>
    obtain ⟨hb, hrest⟩ := List.forall_mem_cons.1 h
    have hlines : nearest b.lines = nearest [b.entry] := by
      unfold Block.lines
      rw [← List.singleton_append, nearest_append, nearest_eq_none.2 hb]
      rfl
    rw [List.map_cons, List.flatMap_cons, ← List.singleton_append, nearest_append, nearest_append,
      ih hrest, hlines]

/-- **Each entry of a text is put together from its lines.** -/
theorem heir_of_getElem? {i : Nat} (h : (entriesIn (linesOf layout (utf8 text)))[i]? = some e) :
    ∃ first ∈ parsedLines layout text,
      Heir ((parsedLines layout text).splitBy leads) i first e := by
  unfold entriesIn at h
  rw [getElem?_stampAll, List.getElem?_map, Option.map_map] at h
  obtain ⟨b, hb, rfl⟩ := Option.map_eq_some_iff.1 h
  have hmem : b ∈ blocks (linesOf layout (utf8 text)) := List.mem_of_getElem? hb
  have hsplit := splitBy_leads layout text
  have hfirst : b.first ∈ parsedLines layout text := by
    rw [← entry?_linesOf_utf8, ← lines_blocks, List.mem_flatMap]
    exact ⟨b, hmem, List.mem_cons_self⟩
  have hbare : b.first.continuation = [] := by
    obtain ⟨line, -, hp⟩ := List.mem_filterMap.1 hfirst
    exact continuation_of_parse hp
  have hmore : ∀ b' ∈ (blocks (linesOf layout (utf8 text))).take i, ∀ line ∈ b'.more,
      line.timestamp = none := fun b' hb' => unstamped_of_mem_blocks (List.mem_of_mem_take hb')
  have hnearest : nearest (((blocks (linesOf layout (utf8 text))).map Block.entry).take i) =
      nearest (((parsedLines layout text).splitBy leads).take i).flatten := by
    rw [← hsplit, ← List.map_take, ← List.map_take, ← List.flatMap_def, nearest_map_entry hmore]
  refine ⟨b.first, hfirst, b.more, ?_, ?_⟩
  · rw [← hsplit, List.getElem?_map, hb]
    rfl
  · rw [Function.comp_apply, hnearest]
    simp [Entry.stamp, Block.entry, hbare]

/-- **An entry that reports anything but an exception or an unstructured line has a timestamp.** -/
theorem isSome_timestamp (h : e ∈ entriesIn (linesOf layout (utf8 text)))
    (h1 : e.marker ≠ .exception) (h2 : e.marker ≠ .socketException)
    (h3 : e.marker ≠ .unstructured) : e.timestamp.isSome = true := by
  obtain ⟨i, hi⟩ := List.mem_iff_getElem?.1 h
  obtain ⟨first, hfirst, more, -, rfl⟩ := heir_of_getElem? hi
  obtain ⟨line, -, hp⟩ := List.mem_filterMap.1 hfirst
  by_contra hn
  rw [Option.not_isSome_iff_eq_none, Option.or_eq_none_iff] at hn
  rcases marker_of_parse hp hn.1 with hm | hm | hm
  · exact h1 hm
  · exact h2 hm
  · exact h3 hm

/-- A call that returns an entry leaves the place behind it. -/
theorem exists_of_move {call : Call} {k : Nat} (h : (call.move es k).1 = some e) :
    ∃ i, es[i]? = some e ∧ (call.move es k).2 = i + 1 := by
  cases call with
  | next =>
    have hk : k < es.length := (List.getElem?_eq_some_iff.1 h).1
    exact ⟨k, h, Nat.min_eq_left hk⟩
  | find wanted =>
    unfold Call.move at h ⊢
    simp only at h ⊢
    split at h
    · rename_i j hj
      exact ⟨k + j, h, rfl⟩
    · cases h
  | readFully => cases h

/-- **Entries take the time of the line before them.** Each entry that a cursor returns, and each
that it keeps as an exception or as the latest, has the timestamp of its own first line or else of
the nearest line before it that has one, and none only if neither that line nor any before it has
one. An entry that reports anything but an exception or an unstructured line always has one. The
lines are split into entries by a rule for neighbouring lines as they are written, whatever
timestamps are taken over. -/
theorem timestamps_inherited (layout : Layout) (text : String) (script : List Call) :
    let groups := (parsedLines layout text).splitBy leads
    let c := (Cursor.ofText layout text).after script
    (∀ call e, (c.call call).1 = .ok (some e) → ∃ i first, Heir groups i first e ∧
      (e.timestamp = none ↔
        first.timestamp = none ∧ ∀ line ∈ (groups.take i).flatten, line.timestamp = none) ∧
      (e.marker ≠ .exception → e.marker ≠ .socketException → e.marker ≠ .unstructured →
        e.timestamp.isSome = true) ∧
      (c.call call).2.entriesRead = i + 1 ∧ (c.call call).2.lastEntry = some e ∧
      (e.isException = true → (c.call call).2.exceptions.getLast? = some e)) ∧
    ∃ read : List Entry, read.length = c.entriesRead ∧ c.lastEntry = read.getLast? ∧
      c.exceptions = read.filter (·.isException) ∧
      ∀ i e, read[i]? = some e → ∃ first, Heir groups i first e := by
  intro groups c
  obtain ⟨h, hc⟩ := Cursor.follows_ofText layout text
  obtain ⟨hf, hc'⟩ := Cursor.after_of_clear script h hc
  constructor
  · intro call e he
    obtain ⟨hanswer, hnext, -⟩ := Cursor.call_of_clear hf hc' call
    rw [show (c.call call).1 = _ from hanswer, Except.ok.injEq] at he
    obtain ⟨i, hi, hmove⟩ := exists_of_move he
    obtain ⟨first, -, hheir⟩ := heir_of_getElem? hi
    have hstands := hnext.stands
    rw [hmove] at hstands
    have htake := List.take_add_one (l := entriesIn (linesOf layout (utf8 text))) (i := i)
    rw [hi, Option.toList_some] at htake
    refine ⟨i, first, hheir, ?_, ?_, hstands.entriesRead, ?_, ?_⟩
    · obtain ⟨more, -, rfl⟩ := hheir
      rw [Option.or_eq_none_iff, nearest_eq_none]
    · exact isSome_timestamp (List.mem_of_getElem? hi)
    · rw [hstands.lastEntry, htake, List.getLast?_concat]
    · intro hx
      have hone : [e].filter (·.isException) = [e] := List.filter_cons_of_pos hx
      rw [hstands.exceptions, htake, List.filter_append, hone, List.getLast?_concat]
  · refine ⟨_, ?_, hf.stands.lastEntry, hf.stands.exceptions, ?_⟩
    · rw [List.length_take, Nat.min_eq_left hf.stands.le, hf.stands.entriesRead]
    · intro i e hi
      rw [List.getElem?_take] at hi
      obtain ⟨first, -, hheir⟩ := heir_of_getElem? (Option.ite_none_right_eq_some.1 hi).2
      exact ⟨first, hheir⟩

end RunAudit.Log
