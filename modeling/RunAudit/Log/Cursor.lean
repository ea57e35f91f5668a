import RunAudit.Log.Entry

/-!
# Reading a log front to back

A cursor moves over the entries of one log and never back. It collects the exceptions among the
entries it has moved over, whether or not anyone asked for them. A line that is not valid UTF-8
stops a reading step with an error; the cursor then stands behind that line and can be used on.

* `Cursor.next`: one entry on.
* `Cursor.find`: on to the next entry with one of some markers.
* `Cursor.collect`: on to the end, gathering the entries with one of some markers.
* `Cursor.unread_next_lt`: each entry leaves less to read.
-/

namespace RunAudit.Log

open RunAudit.Text RunAudit.Time

/-- One line of a log as a cursor meets it. -/
inductive Line where
  | blank
  /-- The bytes of the line are not valid UTF-8. -/
  | undecodable
  | entry (e : Entry)
  deriving DecidableEq

/-- One line, decoded and parsed. -/
def Line.ofBytes (layout : Layout) (bytes : List UInt8) : Line :=
  match String.fromUTF8? ⟨bytes.toArray⟩ with
  | none => .undecodable
  | some text =>
    match Entry.parse layout text with
    | none => .blank
    | some e => .entry e

/-- The lines of a log. -/
def linesOf (layout : Layout) (bytes : List UInt8) : List Line :=
  (pieces 10 bytes).map (Line.ofBytes layout)

/-- What can stop a reading step. -/
inductive ReadError where
  /-- A line is not valid UTF-8. -/
  | undecodable
  deriving DecidableEq, Repr

/-- What a search for the next line with an entry comes to. -/
inductive Ahead where
  | nothing
  | stopped (rest : List Line)
  | entry (e : Entry) (rest : List Line)

/-- The next line that is not blank. -/
def lookAhead : List Line → Ahead
  | [] => .nothing
  | .blank :: rest => lookAhead rest
  | .undecodable :: rest => .stopped rest
  | .entry e :: rest => .entry e rest

/-- An entry with the lines that continue it folded in, and what comes after them. -/
def gather (e : Entry) : List Line → Entry × Ahead
  | [] => (e, .nothing)
  | .blank :: rest => gather e rest
  | .undecodable :: rest => (e, .stopped rest)
  | .entry next :: rest =>
    if e.continuedBy next then gather (e.push next.text) rest else (e, .entry next rest)

/-- A place in a log, and what was seen on the way there. -/
structure Cursor where
  lines : List Line
  /-- The entry that was read while looking for the end of the one before it. -/
  pending : Option Entry := none
  exceptions : List Entry := []
  lastEntry : Option Entry := none
  lastTimestamp : Option Instant := none
  entriesRead : Nat := 0
  exhausted : Bool := false

namespace Cursor

/-- A cursor at the start of a log. -/
def ofBytes (layout : Layout) (bytes : List UInt8) : Cursor := { lines := linesOf layout bytes }

/-- How much is left to read: the lines ahead and the entry read in advance. -/
def unread (c : Cursor) : Nat := c.lines.length + (if c.pending.isSome then 1 else 0)

/-- The cursor behind a complete entry, and the entry as it was collected. An entry without a
timestamp takes the latest one before it. -/
def inspect (c : Cursor) (e : Entry) : Entry × Cursor :=
  let stamped := match e.timestamp, c.lastTimestamp with
    | none, some t => e.inherit t
    | _, _ => e
  (stamped,
    { c with
      exceptions := if stamped.isException then c.exceptions ++ [stamped] else c.exceptions
      lastEntry := some stamped
      lastTimestamp := e.timestamp.or c.lastTimestamp
      entriesRead := c.entriesRead + 1 })

/-- The step that completes an entry of which the first line has been read. If a line that cannot
be decoded comes before the end of the entry is known, the entry is given up. -/
def complete (c : Cursor) (e : Entry) : Except ReadError (Option Entry) × Cursor :=
  match gather e c.lines with
  | (e, .nothing) =>
    let (stamped, c) := { c with lines := [], pending := none }.inspect e
    (.ok (some stamped), c)
  | (e, .entry next rest) =>
    let (stamped, c) := { c with lines := rest, pending := some next }.inspect e
    (.ok (some stamped), c)
  | (_, .stopped rest) => (.error .undecodable, { c with lines := rest, pending := none })

/-- Moves on by one entry; none at the end of the log. -/
def next (c : Cursor) : Except ReadError (Option Entry) × Cursor :=
  if c.exhausted then (.ok none, c)
  else match c.pending with
    | some e => c.complete e
    | none =>
      match lookAhead c.lines with
      | .nothing => (.ok none, { c with lines := [], exhausted := true })
      | .stopped rest => (.error .undecodable, { c with lines := rest })
      | .entry e rest => { c with lines := rest }.complete e

/-- Looking for an entry uses up its line. -/
theorem length_lookAhead {lines rest : List Line} {e : Entry}
    (h : lookAhead lines = .entry e rest) : rest.length < lines.length := by
  induction lines with
  | nil => simp [lookAhead] at h
  | cons line lines ih =>
    cases line with
    | blank => have := ih h; simp only [List.length_cons]; omega
    | undecodable => simp [lookAhead] at h
    | entry f => simp only [lookAhead, Ahead.entry.injEq] at h; simp [h.2]

/-- The entry behind the one that was completed has used up its line. -/
theorem length_gather {lines rest : List Line} {e e' next : Entry}
    (h : gather e lines = (e', .entry next rest)) : rest.length < lines.length := by
  induction lines generalizing e with
  | nil => simp [gather] at h
  | cons line lines ih =>
    cases line with
    | blank => have := ih h; simp only [List.length_cons]; omega
    | undecodable => simp [gather] at h
    | entry f =>
      simp only [gather] at h
      split at h
      · have := ih h; simp only [List.length_cons]; omega
      · simp only [Prod.mk.injEq, Ahead.entry.injEq] at h; simp [h.2.2]

@[simp] theorem lines_inspect (c : Cursor) (e : Entry) : (c.inspect e).2.lines = c.lines := rfl

@[simp] theorem pending_inspect (c : Cursor) (e : Entry) :
    (c.inspect e).2.pending = c.pending := rfl

/-- Completing an entry leaves at most the lines that were ahead. -/
theorem unread_complete_le {c c' : Cursor} {e e' : Entry}
    (h : c.complete e = (.ok (some e'), c')) : c'.unread ≤ c.lines.length := by
  unfold complete at h
  split at h
  · simp only [Prod.mk.injEq] at h
    rw [← h.2]
    simp [unread]
  · next next rest hg =>
    simp only [Prod.mk.injEq] at h
    rw [← h.2]
    simpa [unread] using Nat.succ_le_of_lt (length_gather hg)
  · simp at h

/-- **An entry that has been read is no longer ahead**, so reading comes to an end. -/
theorem unread_next_lt {c c' : Cursor} {e : Entry} (h : c.next = (.ok (some e), c')) :
    c'.unread < c.unread := by
  unfold next at h
  split at h
  · simp at h
  · cases hp : c.pending with
    | some p =>
      rw [hp] at h
      have := unread_complete_le h
      simp only [unread, hp, Option.isSome_some, if_true] at *
      omega
    | none =>
      rw [hp] at h
      cases hl : lookAhead c.lines with
      | nothing => simp [hl] at h
      | stopped rest => simp [hl] at h
      | entry p rest =>
        simp only [hl] at h
        have h1 := unread_complete_le h
        have h2 := length_lookAhead hl
        simp only [unread, hp] at *
        simp only [Option.isSome_none, Bool.false_eq_true, if_false]
        omega

/-- Moves on to the next entry that carries one of the wanted markers; none if the log ends
first. -/
def find (wanted : Marker → Bool) (c : Cursor) : Except ReadError (Option Entry) × Cursor :=
  match h : c.next with
  | (.error failure, c') => (.error failure, c')
  | (.ok none, c') => (.ok none, c')
  | (.ok (some e), c') =>
    have := unread_next_lt h
    if wanted e.marker then (.ok (some e), c') else c'.find wanted
  termination_by c.unread

/-- What reading a log to its end has come to. -/
structure Scan where
  /-- The entries with a wanted marker, in the order of the log. -/
  found : List Entry
  cursor : Cursor
  /-- The error that ended the scan early. -/
  failure : Option ReadError

/-- Moves on to the end of the log and gathers the entries that carry a wanted marker. -/
def collect (wanted : Marker → Bool) (c : Cursor) : Scan :=
  match h : c.next with
  | (.error failure, c') => ⟨[], c', some failure⟩
  | (.ok none, c') => ⟨[], c', none⟩
  | (.ok (some e), c') =>
    have := unread_next_lt h
    let later := c'.collect wanted
    if wanted e.marker then { later with found := e :: later.found } else later
  termination_by c.unread

/-- Moves on to the end of the log. -/
def readFully (c : Cursor) : Scan := c.collect fun _ => false

/-- A one-line account of how far a cursor has come. -/
def summary (c : Cursor) : String :=
  "LogReader \x7b entries_read: " ++ toString c.entriesRead ++ ", exceptions: "
    ++ toString c.exceptions.length ++ ", exhausted: " ++ toString c.exhausted ++ " \x7d"

end Cursor

end RunAudit.Log
