import Mathlib.Data.List.Infix
import RunAudit.Proofs.Reading

/-!
# Entries cut off from their end

A cursor inspects an entry once it knows where the entry ends. If the line behind it cannot be
decoded, the step that met that line fails, and the entry is given up: no later step inspects it.

* `Severed`: a log in which a line beyond decoding comes right behind a line with an entry.
* `exhausted_inspects`: what a cursor has inspected when the log is over, whatever was called and
  whatever failed; it is every line with an entry exactly if the log is not severed.
* `severed_exception_missed`: an exception in front of a line beyond decoding is not collected.
-/

namespace RunAudit.Log

/-- Among the lines that are not blank, one beyond decoding comes right behind one with an entry. -/
def Severed (lines : List Line) : Prop :=
  ∃ e, [Line.entry e, .undecodable] <:+: lines.filter (· != .blank)

theorem severed_undecodable (lines : List Line) :
    Severed (.undecodable :: lines) ↔ Severed lines := by
  have hf : (Line.undecodable :: lines).filter (· != .blank) =
      .undecodable :: lines.filter (· != .blank) := rfl
  unfold Severed
  rw [hf]
  refine exists_congr fun e => ?_
  rw [List.infix_cons_iff, List.cons_prefix_cons]
  simp

theorem severed_entry (e : Entry) (lines : List Line) :
    Severed (.entry e :: lines) ↔
      (lines.filter (· != .blank)).head? = some .undecodable ∨ Severed lines := by
  have hf : (Line.entry e :: lines).filter (· != .blank) =
      .entry e :: lines.filter (· != .blank) := rfl
  unfold Severed
  rw [hf]
  constructor
  · rintro ⟨a, ha⟩
    rcases List.infix_cons_iff.1 ha with hp | hi
    · obtain ⟨-, t, ht⟩ := List.cons_prefix_cons.1 hp
      rw [← ht]
      exact .inl rfl
    · exact .inr ⟨a, hi⟩
  · rintro (hh | ⟨a, hi⟩)
    · obtain ⟨t, ht⟩ := List.head?_eq_some_iff.1 hh
      rw [ht]
      exact ⟨e, [], t, rfl⟩
    · exact ⟨a, List.infix_cons_iff.2 (.inr hi)⟩

/-- A block is ended by a line beyond decoding exactly if such a line comes right behind one of its
lines. -/
theorem broken_some_mem (b : Option Block) (lines : List Line) :
    (∃ s, Segment.broken (some s) ∈ segments b lines) ↔
      (b.isSome ∧ (lines.filter (· != .blank)).head? = some .undecodable) ∨ Severed lines := by
  induction lines generalizing b with
  | nil =>
    cases b <;> simp [segments, Severed]
  | cons line lines ih =>
    cases line with
    | blank => exact ih b
    | undecodable =>
      rw [severed_undecodable, segments]
      have hr := ih none
      cases b with
      | none => simpa using hr
      | some b => exact ⟨fun _ => .inl ⟨rfl, rfl⟩, fun _ => ⟨b, List.mem_cons_self⟩⟩
    | entry e =>
      -- whatever was open before, a block is open behind this line
      obtain ⟨b', hb'⟩ : ∃ b', (∃ s, Segment.broken (some s) ∈ segments b (.entry e :: lines)) ↔
          ∃ s, Segment.broken (some s) ∈ segments (some b') lines := by
        cases b with
        | none => exact ⟨.start e, Iff.rfl⟩
        | some b =>
          by_cases he : b.entry.continuedBy e
          · exact ⟨b.extend e, by rw [segments, if_pos he]⟩
          · exact ⟨.start e, by rw [segments, if_neg he]; simp⟩
      rw [hb', ih, severed_entry]
      simp

/-- Blocks without their end only add lines. -/
theorem length_lines_whole_le (segs : List Segment) :
    ((segs.filterMap Segment.whole?).flatMap Block.lines).length ≤
      ((segs.filterMap Segment.block?).flatMap Block.lines).length := by
  induction segs with
  | nil => exact le_rfl
  | cons s segs ih =>
    simp only [List.filterMap_cons]
    rcases s with b | _ | b <;> simp only [Segment.whole?, Segment.block?, List.flatMap_cons,
      List.length_append] <;> omega

/-- **The blocks that have their end hold every line with an entry**, each exactly once, unless a
line beyond decoding comes right behind one. -/
theorem lines_kept_iff (lines : List Line) :
    (kept lines).flatMap Block.lines = lines.filterMap Line.entry? ↔ ¬ Severed lines := by
  have key : ∀ segs : List Segment, (segs.filterMap Segment.whole?).flatMap Block.lines =
      (segs.filterMap Segment.block?).flatMap Block.lines ↔
        ¬ ∃ s, Segment.broken (some s) ∈ segs := by
    intro segs
    induction segs with
    | nil => simp
    | cons s segs ih =>
      simp only [List.filterMap_cons]
      rcases s with b | _ | b
      · simpa using ih
      · simpa using ih
      · -- a block without its end has at least its first line
        refine iff_of_false ?_ (not_not_intro ⟨b, List.mem_cons_self⟩)
        intro h
        have h1 := congrArg List.length h
        have h2 := length_lines_whole_le segs
        simp only [Segment.whole?, Segment.block?, List.flatMap_cons, List.length_append,
          Block.lines, List.length_cons] at h1 h2
        omega
  rw [← lines_blocks, kept, blocks, key, broken_some_mem]
  simp

/-- **What a cursor has inspected when its log is over**, whatever was called and whatever failed on
the way: the entries of the blocks that have their end. These blocks hold each line with an entry
exactly once if no line beyond decoding comes right behind a line with an entry, and only then. -/
theorem exhausted_inspects (layout : Layout) (bytes : List UInt8) (script : List Call)
    (h : ((Cursor.ofBytes layout bytes).after script).exhausted = true) :
    ((Cursor.ofBytes layout bytes).after script).entriesRead =
        (kept (linesOf layout bytes)).length ∧
      ((Cursor.ofBytes layout bytes).after script).exceptions =
        (inspected (linesOf layout bytes)).filter (·.isException) ∧
      ((kept (linesOf layout bytes)).flatMap Block.lines =
        (linesOf layout bytes).filterMap Line.entry? ↔ ¬ Severed (linesOf layout bytes)) := by
  obtain ⟨k, hf⟩ : ∃ k, ((Cursor.ofBytes layout bytes).after script).Follows
      (inspected (linesOf layout bytes)) k :=
    Cursor.after_follows script (Cursor.follows_start _)
  have hk := hf.stands.exhausted h
  refine ⟨?_, ?_, lines_kept_iff _⟩
  · rw [hf.stands.entriesRead, hk, inspected, length_stampAll, List.length_map]
  · rw [hf.stands.exceptions, hk, List.take_length]

/-- A log of an exception with its trace, a line beyond decoding, and a startup. -/
def severedLog : List UInt8 :=
  utf8 "2024-03-01 10:00:00 EXCEPTION boom\n\tat x\n" ++ [255, 10] ++
    utf8 "2024-03-01 10:00:01 STARTUP up"

theorem exhausted_inspects_severedLog :
    let c := (Cursor.ofBytes .platform severedLog).after [.readFully, .next, .next]
    let lines := linesOf .platform severedLog
    c.exhausted = true ∧ c.entriesRead = (kept lines).length ∧
      c.exceptions = (inspected lines).filter (·.isException) ∧
      ((kept lines).flatMap Block.lines = lines.filterMap Line.entry? ↔ ¬ Severed lines) := by
  have h : ((Cursor.ofBytes .platform severedLog).after
      [.readFully, .next, .next]).exhausted = true := by decide +kernel
  exact ⟨h, exhausted_inspects .platform severedLog _ h⟩

/-- **An exception in front of a line beyond decoding is not collected**, and nothing but the entry
behind that line is ever inspected. -/
theorem severed_exception_missed :
    let c := (Cursor.ofBytes .platform severedLog).after [.next, .next, .next]
    c.exhausted = true ∧ c.entriesRead = 1 ∧ c.exceptions = [] ∧
      ((linesOf .platform severedLog).filterMap Line.entry?).map (·.marker) =
        [.exception, .unstructured, .startup] := by
  refine ⟨?_, ?_, ?_, ?_⟩ <;> decide +kernel

end RunAudit.Log
