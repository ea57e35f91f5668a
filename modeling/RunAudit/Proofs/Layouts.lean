import Mathlib.Data.List.Forall2
import RunAudit.Proofs.Folding
import RunAudit.Proofs.Trimming

/-!
# The two layouts cut a log alike

On a line of a client log the suite is split off the message, and whether a line continues an entry
is a matter of its text. The texts that this question is about are those of lines without a
timestamp, though. If no such line begins with a quote, they are the same in both layouts, and a
cursor finds the same entries in both, up to the suites.

* `NamesSuite`, `SplitsFrom`: an entry of a client log next to one of a platform log.
* `continuedBy_withSuite`: the suite of an entry does not matter to the lines that follow it.
* `segments_withSuite`: the segments of a log in both layouts.
* `layouts_cut_alike`: what the two cursors come to.
-/

namespace RunAudit.Log

open RunAudit.Text RunAudit.Time

/-! ### Suites in front of a message -/

/-- A text that names a suite, in single quotes, before its message. -/
def NamesSuite (text suite message : List Char) : Prop :=
  '\'' ∉ suite ∧ ∃ rest, text = '\'' :: suite ++ '\'' :: rest ∧ message = trim rest

theorem quotedSuite?_eq_some_iff {text suite message : List Char} :
    quotedSuite? text = some (suite, message) ↔ NamesSuite text suite message := by
  unfold NamesSuite
  constructor
  · intro h
    unfold quotedSuite? at h
    split at h
    · next rest =>
      rw [Option.map_eq_some_iff] at h
      obtain ⟨⟨before, after⟩, hsplit, heq⟩ := h
      obtain ⟨hmem, rfl⟩ := splitFirst_eq_some_iff.1 hsplit
      cases heq
      exact ⟨hmem, after, rfl, rfl⟩
    · cases h
  · rintro ⟨hmem, rest, rfl, rfl⟩
    have hsplit : splitFirst '\'' (suite ++ '\'' :: rest) = some (suite, rest) :=
      splitFirst_append hmem rest
    show (splitFirst '\'' (suite ++ '\'' :: rest)).map _ = _
    rw [hsplit]
    rfl

/-- **An entry of a client log next to the entry of a platform log on the same lines.** -/
structure SplitsFrom (platform client : Entry) : Prop where
  marker : client.marker = platform.marker
  timestamp : client.timestamp = platform.timestamp
  continuation : client.continuation = platform.continuation
  named : ∀ suite message, NamesSuite platform.text.toList suite message →
    client.suite = some (.ofList suite) ∧ client.text = .ofList message
  unnamed : (∀ suite message, ¬ NamesSuite platform.text.toList suite message) →
    client.suite = none ∧ client.text = platform.text

namespace Entry

/-- Splitting off a suite changes nothing else. -/
theorem withSuite_eq (e : Entry) :
    e.withSuite = { e with suite := e.withSuite.suite, text := e.withSuite.text } := by
  unfold withSuite
  cases quotedSuite? e.text.toList <;> rfl

@[simp] theorem marker_withSuite (e : Entry) : e.withSuite.marker = e.marker := by
  rw [withSuite_eq]

@[simp] theorem timestamp_withSuite (e : Entry) : e.withSuite.timestamp = e.timestamp := by
  rw [withSuite_eq]

@[simp] theorem continuation_withSuite (e : Entry) :
    e.withSuite.continuation = e.continuation := by
  rw [withSuite_eq]

@[simp] theorem isException_withSuite (e : Entry) : e.withSuite.isException = e.isException :=
  congrArg Marker.isException e.marker_withSuite

/-- Whether an entry has a suite split off before or after it takes a timestamp does not matter. -/
theorem withSuite_stamp (last : Option Instant) (e : Entry) :
    (e.stamp last).withSuite = e.withSuite.stamp last := by
  unfold withSuite stamp
  cases quotedSuite? e.text.toList <;> rfl

theorem splitsFrom_withSuite {e : Entry} (hsuite : e.suite = none) : SplitsFrom e e.withSuite := by
  refine ⟨e.marker_withSuite, e.timestamp_withSuite, e.continuation_withSuite, ?_, ?_⟩
  · intro suite message hnames
    unfold withSuite
    rw [quotedSuite?_eq_some_iff.2 hnames]
    exact ⟨rfl, rfl⟩
  · intro hnone
    have hq : quotedSuite? e.text.toList = none := by
      cases hq : quotedSuite? e.text.toList with
      | none => rfl
      | some split => exact absurd (quotedSuite?_eq_some_iff.1 hq) (hnone split.1 split.2)
    unfold withSuite
    rw [hq]
    exact ⟨hsuite, rfl⟩

/-- An entry that has a timestamp of its own or does not begin with a quote. -/
def Unquoted (e : Entry) : Prop := e.timestamp = none → e.text.toList.head? ≠ some '\''

theorem withSuite_of_unquoted {e : Entry} (h : e.Unquoted) (ht : e.timestamp = none) :
    e.withSuite = e := by
  have hq : quotedSuite? e.text.toList = none := by
    have hhead := h ht
    unfold quotedSuite?
    split
    · next rest heq =>
      rw [heq] at hhead
      exact absurd rfl hhead
    · rfl
  unfold withSuite
  rw [hq]

/-- **The suite of an entry does not matter to the lines that follow it**, and that of a line that
might continue an entry is not there. -/
theorem continuedBy_withSuite (e : Entry) {next : Entry} (h : next.Unquoted) :
    e.withSuite.continuedBy next.withSuite = e.continuedBy next := by
  unfold continuedBy
  cases ht : next.timestamp with
  | some t => rw [timestamp_withSuite, ht]; rfl
  | none =>
    rw [withSuite_of_unquoted h ht, ht, isException_withSuite, timestamp_withSuite,
      continuation_withSuite]

/-- A line that continues an entry has no timestamp. -/
theorem timestamp_of_continuedBy {e next : Entry} (h : e.continuedBy next = true) :
    next.timestamp = none :=
  Option.isNone_iff_eq_none.1 (Bool.and_eq_true_iff.1 h).1

end Entry

/-! ### Logs in both layouts -/

/-- The line of a client log that the line of a platform log would be. -/
def Line.withSuite : Line → Line
  | .entry e => .entry e.withSuite
  | line => line

/-- The block of a client log that the block of a platform log would be. -/
def Block.withSuite (b : Block) : Block := { b with first := b.first.withSuite }

/-- The segment of a client log that the segment of a platform log would be. -/
def Segment.withSuite : Segment → Segment
  | .whole b => .whole b.withSuite
  | .broken severed => .broken (severed.map Block.withSuite)

theorem Line.ofBytes_client (bytes : List UInt8) :
    Line.ofBytes .client bytes = (Line.ofBytes .platform bytes).withSuite := by
  unfold Line.ofBytes
  cases String.fromUTF8? ⟨bytes.toArray⟩ with
  | none => rfl
  | some text =>
    simp only [Entry.parse_client]
    cases Entry.parse .platform text <;> rfl

theorem linesOf_client (bytes : List UInt8) :
    linesOf .client bytes = (linesOf .platform bytes).map Line.withSuite := by
  unfold linesOf
  rw [List.map_map]
  exact List.map_congr_left fun line _ => Line.ofBytes_client line

theorem Block.entry_withSuite (b : Block) : b.withSuite.entry = b.entry.withSuite := by
  unfold withSuite entry Entry.withSuite
  cases quotedSuite? b.first.text.toList <;> rfl

/-- **The segments of a log in both layouts**, if its lines without a timestamp do not begin with a
quote. -/
theorem segments_withSuite {lines : List Line} (h : ∀ e, Line.entry e ∈ lines → e.Unquoted)
    (b : Option Block) :
    segments (b.map Block.withSuite) (lines.map Line.withSuite) =
      (segments b lines).map Segment.withSuite := by
  -- along the lines, the two open blocks differ by the suite of the first line alone
  induction lines generalizing b with
  | nil => cases b <;> rfl
  | cons line lines ih =>
    have hrest : ∀ e, Line.entry e ∈ lines → e.Unquoted := fun e he =>
      h e (List.mem_cons_of_mem _ he)
    cases line with
    | blank => exact ih hrest b
    | undecodable => exact congrArg _ (ih hrest none)
    | entry e =>
      have he : e.Unquoted := h e List.mem_cons_self
      cases b with
      | none => exact ih hrest (some (.start e))
      | some b =>
        have hsame : b.withSuite.entry.continuedBy e.withSuite = b.entry.continuedBy e := by
          rw [Block.entry_withSuite, Entry.continuedBy_withSuite _ he]
        rw [Option.map_some, List.map_cons, Line.withSuite, segments, segments, hsame]
        by_cases hc : b.entry.continuedBy e = true
        · have ht : e.timestamp = none := Entry.timestamp_of_continuedBy hc
          rw [if_pos hc, if_pos hc, Entry.withSuite_of_unquoted he ht]
          exact ih hrest (some (b.extend e))
        · rw [if_neg hc, if_neg hc, List.map_cons]
          exact congrArg _ (ih hrest (some (.start e)))

theorem stampAll_withSuite (last : Option Instant) (es : List Entry) :
    stampAll last (es.map Entry.withSuite) = (stampAll last es).map Entry.withSuite := by
  induction es generalizing last with
  | nil => rfl
  | cons e es ih =>
    rw [List.map_cons, stampAll, stampAll, List.map_cons, ih, Entry.timestamp_withSuite,
      Entry.withSuite_stamp]

theorem entriesIn_client {bytes : List UInt8}
    (h : ∀ e, Line.entry e ∈ linesOf .platform bytes → e.Unquoted) :
    entriesIn (linesOf .client bytes) =
      (entriesIn (linesOf .platform bytes)).map Entry.withSuite := by
  have hblock : Segment.block? ∘ Segment.withSuite =
      Option.map Block.withSuite ∘ Segment.block? := by
    funext s
    cases s <;> rfl
  have hblocks : blocks (linesOf .client bytes) =
      (blocks (linesOf .platform bytes)).map Block.withSuite := by
    have hsegments := segments_withSuite h none
    rw [Option.map_none, ← linesOf_client] at hsegments
    unfold blocks
    rw [hsegments, List.filterMap_map, hblock, List.map_filterMap]
    rfl
  have hentry : Block.entry ∘ Block.withSuite = Entry.withSuite ∘ Block.entry :=
    funext Block.entry_withSuite
  unfold entriesIn
  rw [hblocks, List.map_map, hentry, ← List.map_map, stampAll_withSuite]

/-! ### Platform logs -/

theorem suite_parse_platform {line : String} {e : Entry} (h : Entry.parse .platform line = some e) :
    e.suite = none := by
  unfold Entry.parse Entry.parsePlatform at h
  simp only at h
  split at h
  · cases h
  · split at h <;> cases h <;> rfl

theorem Line.parses_of_ofText {layout : Layout} {line : String} {e : Entry}
    (h : Line.ofText layout line = .entry e) : Entry.parse layout line = some e := by
  unfold Line.ofText at h
  split at h
  · cases h
  · next hparse =>
    cases h
    exact hparse

theorem mem_stampAll {last : Option Instant} {es : List Entry} {e : Entry}
    (h : e ∈ stampAll last es) : ∃ own ∈ es, ∃ last', e = own.stamp last' := by
  induction es generalizing last with
  | nil => cases h
  | cons own es ih =>
    rcases List.mem_cons.1 h with rfl | h
    · exact ⟨own, List.mem_cons_self, last, rfl⟩
    · obtain ⟨own', hmem, hstamp⟩ := ih h
      exact ⟨own', List.mem_cons_of_mem _ hmem, hstamp⟩

/-- The first line of a block is a line of the log. -/
theorem first_of_mem_blocks {lines : List Line} {b : Block} (h : b ∈ blocks lines) :
    Line.entry b.first ∈ lines := by
  have hline : b.first ∈ (blocks lines).flatMap Block.lines :=
    List.mem_flatMap.2 ⟨b, h, List.mem_cons_self⟩
  rw [lines_blocks, List.mem_filterMap] at hline
  obtain ⟨line, hmem, hentry⟩ := hline
  cases line <;> cases hentry
  exact hmem

theorem suite_entriesIn_platform {text : String} {e : Entry}
    (h : e ∈ entriesIn (linesOf .platform (utf8 text))) : e.suite = none := by
  obtain ⟨own, hown, last, rfl⟩ := mem_stampAll h
  obtain ⟨b, hb, rfl⟩ := List.mem_map.1 hown
  have hfirst := first_of_mem_blocks hb
  rw [linesOf_utf8, List.mem_map] at hfirst
  obtain ⟨line, -, hline⟩ := hfirst
  have hsuite : b.first.suite = none := suite_parse_platform (Line.parses_of_ofText hline)
  exact hsuite

/-- A text in which no line without a structured beginning begins with a quote. -/
def Unquoted (text : String) : Prop :=
  ∀ line ∈ pieces '\n' text.toList, isStructured (.ofList line) = false → line.head? ≠ some '\''

instance (text : String) : Decidable (Unquoted text) := List.decidableBAll _ _

theorem Unquoted.entry {text : String} (h : Unquoted text) {e : Entry}
    (he : Line.entry e ∈ linesOf .platform (utf8 text)) : e.Unquoted := by
  intro ht
  rw [linesOf_utf8, List.map_map, List.mem_map] at he
  obtain ⟨line, hmem, hline⟩ := he
  have hparse : ParsesTo (.ofList line) e := Line.parses_of_ofText hline
  have hunstructured : isStructured (.ofList line) = false := by
    rw [hparse.isStructured_eq, ht]
    rfl
  obtain ⟨hne, -, htext⟩ := hparse.entry
  rw [htext ht, String.toList_ofList, String.toList_ofList]
  -- a line keeps its first character if the blanks at its end are taken off
  obtain ⟨blanks, hblanks, -⟩ := exists_blanks line
  have hhead : line.head? = (trimEnd line).head? := by
    rw [String.toList_ofList] at hne
    conv_lhs => rw [hblanks]
    exact List.head?_append_of_ne_nil _ hne
  rw [← hhead]
  exact h line hmem hunstructured

/-! ### Both cursors -/

/-- What reading a text to its end comes to. -/
theorem collect_ofText (layout : Layout) (text : String) :
    let es := entriesIn (linesOf layout (utf8 text))
    let scan := (Cursor.ofText layout text).collect fun _ => true
    scan.failure = none ∧ scan.found = es ∧ scan.cursor.StandsAt es es.length := by
  intro es scan
  obtain ⟨hfollows, hclear⟩ := Cursor.follows_ofText layout text
  rcases Cursor.collect_cases (fun _ => true) hfollows with
    ⟨hfailure, -, -, hfound, hend, -⟩ | ⟨-, hnot, -⟩
  · rw [List.drop_zero, List.filter_eq_self.2 fun _ _ => rfl] at hfound
    exact ⟨hfailure, hfound, hend.stands⟩
  · exact absurd hclear hnot

/-- **The two layouts cut a log alike**, if no line of it without a structured beginning begins with
a quote. Reading the text to its end succeeds in both. It comes to equally many entries, and an
entry of the client log has the marker, the timestamp and the continuation of the platform log's,
with the suite that its text names in front split off. The same is true of the exceptions, and both
cursors have read as many entries and end with the same timestamp. -/
theorem layouts_cut_alike {text : String} (h : Unquoted text) :
    let platform := (Cursor.ofText .platform text).collect fun _ => true
    let client := (Cursor.ofText .client text).collect fun _ => true
    platform.failure = none ∧ client.failure = none ∧
      client.found.length = platform.found.length ∧
      List.Forall₂ SplitsFrom platform.found client.found ∧
      client.cursor.exceptions.length = platform.cursor.exceptions.length ∧
      List.Forall₂ SplitsFrom platform.cursor.exceptions client.cursor.exceptions ∧
      platform.cursor.entriesRead = platform.found.length ∧
      client.cursor.entriesRead = platform.cursor.entriesRead ∧
      client.cursor.lastTimestamp = platform.cursor.lastTimestamp := by
  intro platform client
  obtain ⟨hfailure, hfound, hstands⟩ := collect_ofText .platform text
  obtain ⟨hfailure', hfound', hstands'⟩ := collect_ofText .client text
  rw [entriesIn_client fun e => h.entry] at hfound' hstands'
  have hsplit : ∀ es : List Entry, (∀ e ∈ es, e.suite = none) →
      List.Forall₂ SplitsFrom es (es.map Entry.withSuite) := by
    intro es hes
    rw [List.forall₂_map_right_iff, List.forall₂_same]
    intro e he
    exact Entry.splitsFrom_withSuite (hes e he)
  have hexceptions : client.cursor.exceptions =
      platform.cursor.exceptions.map Entry.withSuite := by
    have hsame : Entry.isException ∘ Entry.withSuite = Entry.isException :=
      funext Entry.isException_withSuite
    rw [hstands.exceptions, hstands'.exceptions, List.take_length, List.take_length,
      List.filter_map, hsame]
  have hlast : client.cursor.lastTimestamp = platform.cursor.lastTimestamp := by
    have hsame : Entry.timestamp ∘ Entry.withSuite = Entry.timestamp :=
      funext Entry.timestamp_withSuite
    rw [hstands.lastTimestamp, hstands'.lastTimestamp, List.take_length, List.take_length,
      List.filterMap_map, hsame]
  refine ⟨hfailure, hfailure', ?_, ?_, ?_, ?_, ?_, ?_, hlast⟩
  · rw [hfound, hfound', List.length_map]
  · rw [hfound, hfound']
    exact hsplit _ fun e => suite_entriesIn_platform
  · rw [hexceptions, List.length_map]
  · rw [hexceptions]
    refine hsplit _ fun e he => ?_
    rw [hstands.exceptions, List.take_length] at he
    exact suite_entriesIn_platform (List.mem_of_mem_filter he)
  · rw [hstands.entriesRead, hfound]
  · rw [hstands.entriesRead, hstands'.entriesRead, List.length_map]

/-- A suite in front of an exception, one that a line of a stack trace quotes, and one without an
end. -/
def clientLog : String :=
  "2024-03-01 10:00:00 EXCEPTION 'Transfers' no answer\n" ++
  "java.io.IOException: closed by 'peer'\n" ++
  "\tat Client.ask\n" ++
  "2024-03-01 10:00:10 SUITE_PASSED 'Transfers\n" ++
  "done"

theorem layouts_cut_alike_clientLog :
    Unquoted clientLog ∧
      ∃ platform client : Cursor.Scan,
        platform = (Cursor.ofText .platform clientLog).collect (fun _ => true) ∧
        client = (Cursor.ofText .client clientLog).collect (fun _ => true) ∧
        List.Forall₂ SplitsFrom platform.found client.found ∧
        platform.found.map (·.text) = ["'Transfers' no answer", "'Transfers", "done"] ∧
        client.found.map (·.suite) = [some "Transfers", none, none] ∧
        client.cursor.entriesRead = 3 := by
  have hunquoted : Unquoted clientLog := by decide +kernel
  have htexts : (entriesIn (linesOf .platform (utf8 clientLog))).map (·.text) =
      ["'Transfers' no answer", "'Transfers", "done"] := by decide +kernel
  have hsuites : (entriesIn (linesOf .client (utf8 clientLog))).map (·.suite) =
      [some "Transfers", none, none] := by decide +kernel
  obtain ⟨-, -, -, hfound, -, -, hread, hsame, -⟩ := layouts_cut_alike hunquoted
  obtain ⟨-, hplatform, -⟩ := collect_ofText .platform clientLog
  obtain ⟨-, hclient, -⟩ := collect_ofText .client clientLog
  refine ⟨hunquoted, _, _, rfl, rfl, hfound, ?_, ?_, ?_⟩
  · rw [hplatform]
    exact htexts
  · rw [hclient]
    exact hsuites
  · have hlength := congrArg List.length htexts
    rw [List.length_map] at hlength
    rw [hsame, hread, hplatform]
    exact hlength

end RunAudit.Log
