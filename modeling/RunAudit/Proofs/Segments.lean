import Mathlib.Data.List.Basic
import RunAudit.Proofs.Lines

/-!
# Segments of a log

A cursor finds the end of an entry by reading one line too far. Here a log is cut up in one pass
over its lines, without looking ahead: a block is the line that starts an entry with the lines that
continue it, and a line that cannot be decoded ends the block before it.

* `segments`: the blocks of a log and its lines that cannot be decoded.
* `segments_lookAhead`, `segments_gather`: what a cursor's two searches find.
* `lines_blocks`: each line that has an entry stands in exactly one block.
* `entriesIn`, `inspected`: the entries of a log, and those of them that a cursor inspects.
-/

namespace RunAudit.Log

open RunAudit.Time

/-- The line that starts an entry and the lines that continue it. -/
structure Block where
  first : Entry
  more : List Entry := []
  deriving DecidableEq

namespace Block

/-- The block that a line starts. -/
def start (e : Entry) : Block := { first := e }

/-- A block with one more line. -/
def extend (b : Block) (next : Entry) : Block := { b with more := b.more ++ [next] }

/-- The lines of a block. -/
def lines (b : Block) : List Entry := b.first :: b.more

/-- The entry of a block: its first line with the texts of the others folded in. -/
def entry (b : Block) : Entry :=
  { b.first with continuation := b.first.continuation ++ b.more.map (·.text) }

@[simp] theorem entry_start (e : Entry) : (start e).entry = e := by
  simp [entry, start]

@[simp] theorem entry_extend (b : Block) (next : Entry) :
    (b.extend next).entry = b.entry.push next.text := by
  simp [entry, extend, Entry.push]

@[simp] theorem lines_extend (b : Block) (next : Entry) :
    (b.extend next).lines = b.lines ++ [next] := rfl

end Block

/-- One part of a log. -/
inductive Segment where
  | whole (b : Block)
  /-- A line that cannot be decoded, and the block that it ends, if one was open. -/
  | broken (severed : Option Block)
  deriving DecidableEq

/-- The block of a segment that has its end. -/
@[simp] def Segment.whole? : Segment → Option Block
  | whole b => some b
  | broken _ => none

/-- The block of a segment, with its end or without. -/
@[simp] def Segment.block? : Segment → Option Block
  | whole b => some b
  | broken severed => severed

/-- The segments of a log, with the block that is open at its start. -/
def segments : Option Block → List Line → List Segment
  | b, [] => (b.map Segment.whole).toList
  | b, .blank :: rest => segments b rest
  | b, .undecodable :: rest => .broken b :: segments none rest
  | none, .entry e :: rest => segments (some (.start e)) rest
  | some b, .entry e :: rest =>
    if b.entry.continuedBy e then segments (some (b.extend e)) rest
    else .whole b :: segments (some (.start e)) rest

/-- The search for the first line of an entry passes over nothing. -/
theorem segments_lookAhead (lines : List Line) :
    segments none lines = match lookAhead lines with
      | .nothing => []
      | .stopped rest => .broken none :: segments none rest
      | .entry e rest => segments (some (.start e)) rest := by
  induction lines with
  | nil => rfl
  | cons line lines ih =>
    cases line with
    | blank => exact ih
    | undecodable => rfl
    | entry e => rfl

/-- **The search for the end of an entry** folds in the rest of its block and passes over nothing
else. -/
theorem segments_gather (b : Block) (lines : List Line) :
    ∃ b', (gather b.entry lines).1 = b'.entry ∧
      segments (some b) lines = match (gather b.entry lines).2 with
        | .nothing => [.whole b']
        | .stopped rest => .broken (some b') :: segments none rest
        | .entry next rest => .whole b' :: segments (some (.start next)) rest := by
  induction lines generalizing b with
  | nil => exact ⟨b, rfl, rfl⟩
  | cons line lines ih =>
    cases line with
    | blank => exact ih b
    | undecodable => exact ⟨b, rfl, rfl⟩
    | entry e =>
      by_cases he : b.entry.continuedBy e
      · obtain ⟨b', h1, h2⟩ := ih (b.extend e)
        rw [Block.entry_extend] at h1 h2
        refine ⟨b', ?_, ?_⟩
        · rw [gather, if_pos he]; exact h1
        · rw [gather, if_pos he, segments, if_pos he]; exact h2
      · refine ⟨b, ?_, ?_⟩
        · rw [gather, if_neg he]
        · rw [gather, if_neg he, segments, if_neg he]

/-- The entry that a line starts or continues. -/
@[simp] def Line.entry? : Line → Option Entry
  | entry e => some e
  | _ => none

/-- The blocks of a log, with their end or without. -/
def blocks (lines : List Line) : List Block := (segments none lines).filterMap Segment.block?

/-- The blocks of a log that have their end. -/
def kept (lines : List Line) : List Block := (segments none lines).filterMap Segment.whole?

theorem lines_blocks_from (b : Option Block) (lines : List Line) :
    ((segments b lines).filterMap Segment.block?).flatMap Block.lines =
      b.toList.flatMap Block.lines ++ lines.filterMap Line.entry? := by
  induction lines generalizing b with
  | nil => cases b <;> simp [segments]
  | cons line lines ih =>
    cases line with
    | blank => rw [segments, ih]; rfl
    | undecodable =>
      rw [segments, List.filterMap_cons, List.filterMap_cons]
      cases b <;> simp [ih]
    | entry e =>
      have hstart : (Block.start e).lines = [e] := rfl
      cases b with
      | none => rw [segments, ih]; simp [hstart]
      | some b =>
        by_cases he : b.entry.continuedBy e
        · rw [segments, if_pos he, ih]; simp
        · rw [segments, if_neg he]; simp [ih, hstart]

/-- **Each line that has an entry stands in exactly one block**, and the blocks keep the order of
the lines. -/
theorem lines_blocks (lines : List Line) :
    (blocks lines).flatMap Block.lines = lines.filterMap Line.entry? := lines_blocks_from none lines

theorem whole?_eq_block? {segs : List Segment} (h : ∀ severed, Segment.broken severed ∉ segs) :
    segs.filterMap Segment.whole? = segs.filterMap Segment.block? := by
  apply List.filterMap_congr
  intro s hs
  cases s with
  | whole b => rfl
  | broken severed => exact absurd hs (h severed)

/-- A line that cannot be decoded is a segment, whether or not it ends a block. -/
theorem broken_mem_segments (b : Option Block) (lines : List Line) :
    (∃ severed, Segment.broken severed ∈ segments b lines) ↔ Line.undecodable ∈ lines := by
  induction lines generalizing b with
  | nil => cases b <;> simp [segments]
  | cons line lines ih =>
    cases line with
    | blank => simpa [segments] using ih b
    | undecodable => exact ⟨fun _ => List.mem_cons_self, fun _ => ⟨b, List.mem_cons_self⟩⟩
    | entry e =>
      cases b with
      | none => simpa [segments] using ih (some (.start e))
      | some b =>
        by_cases he : b.entry.continuedBy e
        · simpa [segments, he] using ih (some (b.extend e))
        · simpa [segments, he] using ih (some (.start e))

theorem kept_of_decodable {lines : List Line} (h : Decodable lines) : kept lines = blocks lines :=
  whole?_eq_block? fun severed hs => h ((broken_mem_segments none lines).1 ⟨severed, hs⟩)

/-- An entry without a timestamp of its own with that of the latest before it. -/
def Entry.stamp (last : Option Instant) (e : Entry) : Entry :=
  { e with timestamp := e.timestamp.or last }

/-- Entries with timestamps carried on. -/
def stampAll : Option Instant → List Entry → List Entry
  | _, [] => []
  | last, e :: rest => e.stamp last :: stampAll (e.timestamp.or last) rest

/-- The entries of a log. -/
def entriesIn (lines : List Line) : List Entry := stampAll none ((blocks lines).map Block.entry)

/-- The entries of a log that a cursor inspects: those of the blocks that have their end. -/
def inspected (lines : List Line) : List Entry := stampAll none ((kept lines).map Block.entry)

theorem inspected_of_decodable {lines : List Line} (h : Decodable lines) :
    inspected lines = entriesIn lines := by
  rw [inspected, kept_of_decodable h]; rfl

@[simp] theorem length_stampAll (last : Option Instant) (es : List Entry) :
    (stampAll last es).length = es.length := by
  induction es generalizing last with
  | nil => rfl
  | cons e es ih => simp [stampAll, ih]

theorem Entry.isException_stamp (last : Option Instant) (e : Entry) :
    (e.stamp last).isException = e.isException := rfl

end RunAudit.Log
