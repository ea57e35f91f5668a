import Mathlib.Data.List.Basic
import RunAudit.Proofs.Segments

/-!
# A cursor is a place in a list of entries

The state of a cursor runs ahead of what it has returned: it holds an entry read in advance, and it
learns late that the log is over. Seen from outside it is a place in one list.

* `Cursor.StandsAt`: a cursor as a place in a list of entries.
* `Cursor.Follows`: the invariant behind it, which also ties down what is still to be read.
* `next_cases`: what one step does, in terms of the invariant.
* `call_meets`: what any call comes to, when it succeeds and when it does not.
* `script_reads_list`: on a text, every script of calls moves over the same list.
-/

namespace RunAudit.Log

open RunAudit.Time

/-- A call that moves a cursor. -/
inductive Call where
  | next
  | find (wanted : Marker → Bool)
  | readFully

/-- What a call returns at place `k` of a list of entries, and the place that it leaves. -/
def Call.move (es : List Entry) (k : Nat) : Call → Option Entry × Nat
  | .next => (es[k]?, min (k + 1) es.length)
  | .find wanted =>
    match (es.drop k).findIdx? fun e => wanted e.marker with
    | some i => (es[k + i]?, k + i + 1)
    | none => (none, es.length)
  | .readFully => (none, es.length)

/-- The place that calls one after another leave, from place `k` on. -/
def placeFrom (es : List Entry) (k : Nat) (script : List Call) : Nat :=
  script.foldl (fun k call => (call.move es k).2) k

namespace Cursor

variable {c c' : Cursor} {es : List Entry} {k : Nat}

/-- A call on a cursor. Reading to the end has no entry to return. -/
def call (c : Cursor) : Call → Except ReadError (Option Entry) × Cursor
  | .next => c.next
  | .find wanted => c.find wanted
  | .readFully =>
    let scan := c.readFully
    (match scan.failure with
      | none => .ok none
      | some failure => .error failure, scan.cursor)

/-- A cursor after calls one after another, whatever they return. -/
def after (c : Cursor) : List Call → Cursor
  | [] => c
  | call :: script => (c.call call).2.after script

/-- **A cursor as a place in a list of entries**: all that it tells about itself is a matter of the
entries before that place. -/
structure StandsAt (c : Cursor) (es : List Entry) (k : Nat) : Prop where
  le : k ≤ es.length
  entriesRead : c.entriesRead = k
  exceptions : c.exceptions = (es.take k).filter (·.isException)
  lastEntry : c.lastEntry = (es.take k).getLast?
  lastTimestamp : c.lastTimestamp = ((es.take k).filterMap (·.timestamp)).getLast?
  exhausted : c.exhausted = true → k = es.length

/-- What lies ahead of a cursor. -/
def ahead (c : Cursor) : List Segment := segments (c.pending.map .start) c.lines

/-- A cursor as a place in a list of which the rest comes from what lies ahead. -/
structure Follows (c : Cursor) (es : List Entry) (k : Nat) : Prop where
  stands : c.StandsAt es k
  rest : es.drop k = stampAll c.lastTimestamp ((c.ahead.filterMap Segment.whole?).map Block.entry)
  drained : c.exhausted = true → c.ahead = []

/-- A new cursor stands at the start of what it will inspect. -/
theorem follows_start (lines : List Line) : Cursor.Follows { lines } (inspected lines) 0 := by
  refine ⟨⟨Nat.zero_le _, rfl, rfl, rfl, rfl, ?_⟩, rfl, ?_⟩ <;> intro h <;> cases h

theorem inspect_eq (c : Cursor) (e : Entry) :
    c.inspect e = (e.stamp c.lastTimestamp,
      { c with
        exceptions := if e.isException then c.exceptions ++ [e.stamp c.lastTimestamp]
          else c.exceptions
        lastEntry := some (e.stamp c.lastTimestamp)
        lastTimestamp := e.timestamp.or c.lastTimestamp
        entriesRead := c.entriesRead + 1 }) := by
  obtain ⟨_, _, _, _, last, _, _⟩ := c
  obtain ⟨timestamp, _, _, _, _⟩ := e
  cases timestamp <;> cases last <;> rfl

/-- Inspecting the next entry moves the place on by one. -/
theorem follows_inspect (h : c.Follows es k) (hx : c.exhausted = false) {b : Block}
    (lines : List Line) (pending : Option Entry)
    (ha : c.ahead = .whole b :: segments (pending.map .start) lines) :
    es[k]? = some (({ c with lines, pending } : Cursor).inspect b.entry).1 ∧
      (({ c with lines, pending } : Cursor).inspect b.entry).2.Follows es (k + 1) := by
  obtain ⟨⟨hle, hn, he, hl, ht, -⟩, hrest, -⟩ := h
  rw [inspect_eq]
  rw [ha, List.filterMap_cons, Segment.whole?, List.map_cons, stampAll] at hrest
  have hk : es[k]? = some (b.entry.stamp c.lastTimestamp) := by
    rw [← List.head?_drop, hrest]; rfl
  have htake : es.take (k + 1) = es.take k ++ [b.entry.stamp c.lastTimestamp] := by
    rw [List.take_add_one, hk]; rfl
  have hlt : k < es.length := (List.getElem?_eq_some_iff.1 hk).1
  refine ⟨hk, ⟨hlt, by simp [hn], ?_, ?_, ?_, ?_⟩, ?_, ?_⟩
  · rw [htake, List.filter_append, ← he]
    by_cases hb : b.entry.isException <;> simp [Entry.isException_stamp, hb]
  · rw [htake, List.getLast?_concat]
  · rw [htake, List.filterMap_append]
    show b.entry.timestamp.or c.lastTimestamp = _
    -- the stamp of the entry is the new time, and without one there was no time before it either
    cases hb : b.entry.timestamp.or c.lastTimestamp with
    | some t => simp [Entry.stamp, hb]
    | none =>
      rw [Option.or_eq_none_iff] at hb
      simp [Entry.stamp, hb, ← ht]
  · intro hx'
    rw [hx] at hx'
    cases hx'
  · rw [List.drop_add_one_eq_tail_drop, hrest]; rfl
  · intro hx'
    rw [hx] at hx'
    cases hx'

/-- The same segments may be ahead in other lines. -/
theorem follows_move (h : c.Follows es k) (lines : List Line) (pending : Option Entry)
    (ha : c.ahead = segments (pending.map .start) lines) :
    Cursor.Follows { c with lines, pending } es k := by
  obtain ⟨⟨hle, hn, he, hl, ht, hx⟩, hrest, hd⟩ := h
  rw [ha] at hrest hd
  exact ⟨⟨hle, hn, he, hl, ht, hx⟩, hrest, hd⟩

/-- Giving up a block that has no end does not move the place. -/
theorem follows_broken (h : c.Follows es k) (hx : c.exhausted = false) {severed : Option Block}
    {lines : List Line} (ha : c.ahead = .broken severed :: segments none lines) :
    Cursor.Follows { c with lines, pending := none } es k := by
  obtain ⟨⟨hle, hn, he, hl, ht, -⟩, hrest, -⟩ := h
  rw [ha, List.filterMap_cons, Segment.whole?] at hrest
  refine ⟨⟨hle, hn, he, hl, ht, ?_⟩, hrest, ?_⟩ <;> intro hx' <;> rw [hx] at hx' <;> cases hx'

/-- Nothing ahead means that the place is the end of the list. -/
theorem eq_length_of_ahead (h : c.Follows es k) (ha : c.ahead = []) : k = es.length := by
  have hr := h.rest
  rw [ha] at hr
  exact Nat.le_antisymm h.stands.le (List.drop_eq_nil_iff.1 hr)

/-- A cursor that has found the log over. -/
theorem follows_exhaust (h : c.Follows es k) (ha : c.ahead = []) :
    Cursor.Follows { c with exhausted := true } es k := by
  have hk := eq_length_of_ahead h ha
  obtain ⟨⟨hle, hn, he, hl, ht, -⟩, hrest, -⟩ := h
  exact ⟨⟨hle, hn, he, hl, ht, fun _ => hk⟩, hrest, fun _ => ha⟩

/-- **Completing the entry that was read in advance** takes up one segment. -/
theorem complete_cases (h : c.Follows es k) (hx : c.exhausted = false) {e : Entry}
    (hp : c.pending = some e) :
    (∃ e' c' b, c.complete e = (.ok (some e'), c') ∧ es[k]? = some e' ∧
      c.ahead = .whole b :: c'.ahead ∧ c'.Follows es (k + 1)) ∨
    (∃ c' severed, c.complete e = (.error .undecodable, c') ∧
      c.ahead = .broken severed :: c'.ahead ∧ c'.Follows es k) := by
  have ha : c.ahead = segments (some (.start e)) c.lines := by unfold ahead; rw [hp]; rfl
  obtain ⟨b, h1, h2⟩ := segments_gather (.start e) c.lines
  rw [Block.entry_start] at h1 h2
  rw [h2] at ha
  unfold complete
  cases hg : gather e c.lines with
  | mk e' found =>
    rw [hg] at h1 ha
    subst h1
    cases found with
    | nothing =>
      obtain ⟨h3, h4⟩ := follows_inspect h hx [] none ha
      exact .inl ⟨_, _, b, rfl, h3, ha, h4⟩
    | stopped rest => exact .inr ⟨_, some b, rfl, ha, follows_broken h hx ha⟩
    | entry next rest =>
      obtain ⟨h3, h4⟩ := follows_inspect h hx rest (some next) ha
      exact .inl ⟨_, _, b, rfl, h3, ha, h4⟩

/-- The step of a cursor that has nothing read in advance. -/
theorem next_of_pending_none (hx : c.exhausted = false) (hp : c.pending = none) :
    c.next = match lookAhead c.lines with
      | .nothing => (.ok none, { c with lines := [], pending := none, exhausted := true })
      | .stopped rest => (.error .undecodable, { c with lines := rest, pending := none })
      | .entry e rest => ({ c with lines := rest, pending := some e } : Cursor).complete e := by
  conv_lhs => unfold next
  rw [hx, if_neg Bool.false_ne_true, hp]
  cases lookAhead c.lines <;> rfl

/-- **What one step does.** It finds the log over, returns the entry at its place and moves on, or
meets a line that cannot be decoded and stays. -/
theorem next_cases (h : c.Follows es k) :
    (∃ c', c.next = (.ok none, c') ∧ c.ahead = [] ∧ c'.ahead = [] ∧ c'.exhausted = true ∧
      c'.Follows es k ∧ (c.exhausted = true → c' = c)) ∨
    (∃ e c' b, c.next = (.ok (some e), c') ∧ es[k]? = some e ∧ c.ahead = .whole b :: c'.ahead ∧
      c'.Follows es (k + 1)) ∨
    (∃ c' severed, c.next = (.error .undecodable, c') ∧ c.ahead = .broken severed :: c'.ahead ∧
      c'.Follows es k) := by
  by_cases hx : c.exhausted = true
  · refine .inl ⟨c, ?_, h.drained hx, h.drained hx, hx, h, fun _ => rfl⟩
    unfold next
    rw [if_pos hx]
  have hx' : c.exhausted = false := Bool.not_eq_true _ ▸ hx
  cases hp : c.pending with
  | some e =>
    have hn : c.next = c.complete e := by
      unfold next
      rw [if_neg hx, hp]
    rw [hn]
    exact .inr (complete_cases h hx' hp)
  | none =>
    have ha : c.ahead = segments none c.lines := by unfold ahead; rw [hp]; rfl
    rw [segments_lookAhead] at ha
    have hn := next_of_pending_none hx' hp
    cases hl : lookAhead c.lines with
    | nothing =>
      rw [hl] at ha hn
      have hm := follows_move h [] none ha
      exact .inl ⟨_, hn, ha, rfl, rfl, follows_exhaust hm rfl, fun hxx => absurd hxx hx⟩
    | stopped rest =>
      rw [hl] at ha hn
      exact .inr (.inr ⟨_, none, hn, ha, follows_broken h hx' ha⟩)
    | entry e rest =>
      -- the entry just found may as well have been read in advance
      rw [hl] at ha hn
      have hm := follows_move h rest (some e) ha
      rw [hn, ha]
      exact .inr (complete_cases hm hx' rfl)

/-- Whether nothing ahead is beyond decoding. -/
def Clear (c : Cursor) : Prop := ∀ severed, Segment.broken severed ∉ c.ahead

theorem clear_of_ahead_nil (h : c.ahead = []) : c.Clear := by
  intro severed hs
  rw [h] at hs
  cases hs

theorem clear_of_whole {b : Block} (h : c.ahead = .whole b :: c'.ahead) : c.Clear ↔ c'.Clear := by
  unfold Clear
  rw [h]
  simp

theorem not_clear_of_broken {severed : Option Block} {segs : List Segment}
    (h : c.ahead = .broken severed :: segs) : ¬ c.Clear :=
  fun hc => hc severed (h ▸ List.mem_cons_self)

/-- A step that finds the log over. -/
theorem of_next_none (h : c.Follows es k) (hn : c.next = (.ok none, c')) :
    k = es.length ∧ c'.Follows es k ∧ c'.exhausted = true ∧ c.Clear ∧ c'.Clear := by
  rcases next_cases h with ⟨d, hd, ha, ha', hx, hf, -⟩ | ⟨e, d, b, hd, -⟩ | ⟨d, s, hd, -⟩ <;>
    rw [hn] at hd <;> cases hd
  exact ⟨eq_length_of_ahead h ha, hf, hx, clear_of_ahead_nil ha, clear_of_ahead_nil ha'⟩

/-- A step that returns an entry. -/
theorem of_next_some (h : c.Follows es k) {e : Entry} (hn : c.next = (.ok (some e), c')) :
    es[k]? = some e ∧ c'.Follows es (k + 1) ∧ (c.Clear ↔ c'.Clear) := by
  rcases next_cases h with ⟨d, hd, -⟩ | ⟨e, d, b, hd, he, ha, hf⟩ | ⟨d, s, hd, -⟩ <;>
    rw [hn] at hd <;> cases hd
  exact ⟨he, hf, clear_of_whole ha⟩

/-- A step that fails. -/
theorem of_next_error (h : c.Follows es k) {failure : ReadError}
    (hn : c.next = (.error failure, c')) : c'.Follows es k ∧ ¬ c.Clear := by
  rcases next_cases h with ⟨d, hd, -⟩ | ⟨e, d, b, hd, -⟩ | ⟨d, s, hd, ha, hf⟩ <;>
    rw [hn] at hd <;> cases hd
  exact ⟨hf, not_clear_of_broken ha⟩

/-- The place behind the entry `e` that stands at `k`. -/
theorem drop_of_getElem? {e : Entry} (he : es[k]? = some e) : es.drop k = e :: es.drop (k + 1) := by
  obtain ⟨hk, rfl⟩ := List.getElem?_eq_some_iff.1 he
  exact List.drop_eq_getElem_cons hk

theorem move_find_hit {wanted : Marker → Bool} {e : Entry} (he : es[k]? = some e)
    (hw : wanted e.marker = true) : (Call.find wanted).move es k = (some e, k + 1) := by
  simp only [Call.move]
  rw [drop_of_getElem? he, List.findIdx?_cons, if_pos hw]
  exact Prod.ext he rfl

theorem move_find_miss {wanted : Marker → Bool} {e : Entry} (he : es[k]? = some e)
    (hw : ¬ wanted e.marker = true) :
    (Call.find wanted).move es k = (Call.find wanted).move es (k + 1) := by
  simp only [Call.move]
  rw [drop_of_getElem? he, List.findIdx?_cons, if_neg hw]
  cases (es.drop (k + 1)).findIdx? (fun e => wanted e.marker) with
  | none => rfl
  | some i =>
    show (es[k + (i + 1)]?, k + (i + 1) + 1) = (es[k + 1 + i]?, k + 1 + i + 1)
    rw [show k + (i + 1) = k + 1 + i by omega]

theorem move_find_end (wanted : Marker → Bool) :
    (Call.find wanted).move es es.length = (none, es.length) := by
  simp only [Call.move]
  rw [List.drop_length]
  rfl

/-- A search ends behind the first entry that it looks for. -/
theorem move_find_split {wanted : Marker → Bool} {before after : List Entry} {e : Entry}
    (hes : es.drop k = before ++ e :: after) (hb : ∀ x ∈ before, ¬ wanted x.marker = true)
    (hw : wanted e.marker = true) :
    (Call.find wanted).move es k = (some e, k + before.length + 1) := by
  induction before generalizing k with
  | nil =>
    have he : es[k]? = some e := by rw [← List.head?_drop, hes]; rfl
    exact move_find_hit he hw
  | cons x before ih =>
    obtain ⟨hx, hb⟩ := List.forall_mem_cons.1 hb
    have hk : es[k]? = some x := by rw [← List.head?_drop, hes]; rfl
    have hrest : es.drop (k + 1) = before ++ e :: after := by
      rw [List.drop_add_one_eq_tail_drop, hes]; rfl
    rw [move_find_miss hk hx, ih hrest hb, List.length_cons, Nat.add_right_comm k 1,
      Nat.add_assoc k]

/-- A search finds something exactly if there is something to find. -/
theorem isSome_move_find (wanted : Marker → Bool) (es : List Entry) (k : Nat) :
    ((Call.find wanted).move es k).1.isSome = true ↔ ∃ e ∈ es.drop k, wanted e.marker = true := by
  cases hf : (es.drop k).find? fun e => wanted e.marker with
  | some e =>
    obtain ⟨hw, before, after, hes, hb⟩ := List.find?_eq_some_iff_append.1 hf
    rw [move_find_split hes (by simpa using hb) hw]
    exact iff_of_true rfl ⟨e, List.mem_of_find?_eq_some hf, hw⟩
  | none =>
    rw [List.find?_eq_none] at hf
    have hidx : ((es.drop k).findIdx? fun e => wanted e.marker) = none :=
      List.findIdx?_eq_none_iff.2 (by simpa using hf)
    simp only [Call.move, hidx]
    exact iff_of_false Bool.false_ne_true fun ⟨e, he, hw⟩ => hf e he hw

/-- **What a call comes to** at place `k`: an answer and a new place as on the list, or an error,
which only a line beyond decoding can cause. -/
def Meets (c : Cursor) (es : List Entry) (k : Nat) (call : Call) :
    Except ReadError (Option Entry) × Cursor → Prop
  | (.ok answer, c') => answer = (call.move es k).1 ∧ c'.Follows es (call.move es k).2 ∧
      (c.Clear → c'.Clear)
  | (.error _, c') => (∃ k', c'.Follows es k') ∧ ¬ c.Clear

theorem next_meets (h : c.Follows es k) : Meets c es k .next c.next := by
  cases hn : c.next with
  | mk answer c' =>
    rcases answer with failure | _ | e
    · obtain ⟨hf, hc⟩ := of_next_error h hn
      exact ⟨⟨k, hf⟩, hc⟩
    · obtain ⟨hk, hf, -, -, hc⟩ := of_next_none h hn
      refine ⟨?_, ?_, fun _ => hc⟩
      · show none = es[k]?
        rw [List.getElem?_eq_none (Nat.le_of_eq hk.symm)]
      · show c'.Follows es (min (k + 1) es.length)
        rw [Nat.min_eq_right (by omega), ← hk]
        exact hf
    · obtain ⟨he, hf, hc⟩ := of_next_some h hn
      have hlt : k < es.length := (List.getElem?_eq_some_iff.1 he).1
      refine ⟨he.symm, ?_, hc.1⟩
      show c'.Follows es (min (k + 1) es.length)
      rw [Nat.min_eq_left hlt]
      exact hf

theorem find_meets (wanted : Marker → Bool) (h : c.Follows es k) :
    Meets c es k (.find wanted) (c.find wanted) := by
  fun_induction Cursor.find wanted c generalizing k with
  | case1 c failure c' hn =>
    obtain ⟨hf, hc⟩ := of_next_error h hn
    exact ⟨⟨k, hf⟩, hc⟩
  | case2 c c' hn =>
    obtain ⟨rfl, hf, -, -, hc⟩ := of_next_none h hn
    rw [Meets, move_find_end]
    exact ⟨rfl, hf, fun _ => hc⟩
  | case3 c e c' hn _ hw =>
    obtain ⟨he, hf, hc⟩ := of_next_some h hn
    rw [Meets, move_find_hit he hw]
    exact ⟨rfl, hf, hc.1⟩
  | case4 c e c' hn _ hw ih =>
    obtain ⟨he, hf, hc⟩ := of_next_some h hn
    have hm := ih hf
    revert hm
    -- the rest of the search starts one place further on
    rcases c'.find wanted with ⟨failure | answer, d⟩
    · exact fun hm => ⟨hm.1, fun h => hm.2 (hc.1 h)⟩
    · rw [Meets, Meets, move_find_miss he hw]
      exact fun hm => ⟨hm.1, hm.2.1, fun h => hm.2.2 (hc.1 h)⟩

/-- A search that succeeds has met nothing beyond decoding. -/
theorem clear_of_find {wanted : Marker → Bool} {answer : Option Entry} (h : c.Follows es k)
    (hn : c.find wanted = (.ok answer, c')) : c.Clear ↔ c'.Clear := by
  fun_induction Cursor.find wanted c generalizing k with
  | case1 c failure d hd => cases hn
  | case2 c d hd =>
    cases hn
    obtain ⟨-, -, -, hc, hc'⟩ := of_next_none h hd
    exact iff_of_true hc hc'
  | case3 c e d hd _ hw =>
    cases hn
    exact (of_next_some h hd).2.2
  | case4 c e d hd _ hw ih =>
    obtain ⟨-, hf, hc⟩ := of_next_some h hd
    exact hc.trans (ih hf hn)

/-- **Reading to the end** gathers what is wanted of the rest of the list, unless it meets a line
that cannot be decoded. -/
theorem collect_cases (wanted : Marker → Bool) (h : c.Follows es k) :
    ((c.collect wanted).failure = none ∧ c.Clear ∧ (c.collect wanted).cursor.Clear ∧
      (c.collect wanted).found = (es.drop k).filter (fun e => wanted e.marker) ∧
      (c.collect wanted).cursor.Follows es es.length ∧
      (c.collect wanted).cursor.exhausted = true) ∨
    ((c.collect wanted).failure = some .undecodable ∧ ¬ c.Clear ∧
      ∃ k', (c.collect wanted).cursor.Follows es k') := by
  fun_induction Cursor.collect wanted c generalizing k with
  | case1 c failure c' hn =>
    obtain ⟨hf, hc⟩ := of_next_error h hn
    cases failure
    exact .inr ⟨rfl, hc, k, hf⟩
  | case2 c c' hn =>
    obtain ⟨rfl, hf, hx, hc, hc'⟩ := of_next_none h hn
    refine .inl ⟨rfl, hc, hc', ?_, hf, hx⟩
    rw [List.drop_length]
    rfl
  | case3 c e c' hn _ later hw =>
    rename_i ih
    obtain ⟨he, hf, hc⟩ := of_next_some h hn
    rw [hc, drop_of_getElem? he, List.filter_cons_of_pos (p := fun e : Entry => wanted e.marker) hw]
    rcases ih hf with ⟨h1, h2, h3, h4, h5⟩ | h1
    · exact .inl ⟨h1, h2, h3, congrArg (e :: ·) h4, h5⟩
    · exact .inr h1
  | case4 c e c' hn _ later hw =>
    rename_i ih
    obtain ⟨he, hf, hc⟩ := of_next_some h hn
    rw [hc, drop_of_getElem? he, List.filter_cons_of_neg (p := fun e : Entry => wanted e.marker) hw]
    exact ih hf

theorem call_meets (call : Call) (h : c.Follows es k) : Meets c es k call (c.call call) := by
  cases call with
  | next => exact next_meets h
  | find wanted => exact find_meets wanted h
  | readFully =>
    unfold Cursor.call readFully
    rcases collect_cases (fun _ => false) h with ⟨h1, -, h2, -, h3, -⟩ | ⟨h1, h2, h3⟩
    · simp only [h1]
      exact ⟨rfl, h3, fun _ => h2⟩
    · simp only [h1]
      exact ⟨h3, h2⟩

/-- A cursor that has found the log over stays as it is. -/
theorem call_of_exhausted (h : c.exhausted = true) (call : Call) :
    c.call call = (.ok none, c) := by
  have hn : c.next = (.ok none, c) := by
    unfold next
    rw [if_pos h]
  cases call with
  | next => exact hn
  | find wanted =>
    show c.find wanted = _
    rw [find]
    split <;> rename_i hd <;> rw [hn] at hd <;> cases hd
    rfl
  | readFully =>
    have hc : c.readFully = ⟨[], c, none⟩ := by
      rw [readFully, collect]
      split <;> rename_i hd <;> rw [hn] at hd <;> cases hd
      rfl
    unfold Cursor.call
    rw [hc]

/-- **Every script keeps a cursor on its list**, errors or not. -/
theorem after_follows (script : List Call) (h : c.Follows es k) :
    ∃ k', (c.after script).Follows es k' := by
  induction script generalizing c k with
  | nil => exact ⟨k, h⟩
  | cons call script ih =>
    have hm := call_meets call h
    rw [after]
    revert hm
    rcases c.call call with ⟨failure | answer, c'⟩
    · rintro ⟨⟨k', hf⟩, -⟩
      exact ih hf
    · rintro ⟨-, hf, -⟩
      exact ih hf

/-- Where nothing is beyond decoding, no call fails and the place is that of the list. -/
theorem call_of_clear (h : c.Follows es k) (hc : c.Clear) (call : Call) :
    (c.call call).1 = .ok (call.move es k).1 ∧ (c.call call).2.Follows es (call.move es k).2 ∧
      (c.call call).2.Clear := by
  have hm := call_meets call h
  revert hm
  rcases c.call call with ⟨failure | answer, c'⟩
  · exact fun hm => absurd hc hm.2
  · exact fun hm => ⟨congrArg _ hm.1, hm.2.1, hm.2.2 hc⟩

theorem after_of_clear (script : List Call) (h : c.Follows es k) (hc : c.Clear) :
    (c.after script).Follows es (placeFrom es k script) ∧ (c.after script).Clear := by
  induction script generalizing c k with
  | nil => exact ⟨h, hc⟩
  | cons call script ih =>
    obtain ⟨-, hf, hc'⟩ := call_of_clear h hc call
    exact ih hf hc'

theorem clear_start_iff (lines : List Line) : Cursor.Clear { lines } ↔ Decodable lines :=
  not_exists.symm.trans (not_congr (broken_mem_segments none lines))

/-- A new cursor on a text stands at the start of its entries, with nothing beyond decoding
ahead. -/
theorem follows_ofText (layout : Layout) (text : String) :
    (Cursor.ofText layout text).Follows (entriesIn (linesOf layout (utf8 text))) 0 ∧
      (Cursor.ofText layout text).Clear := by
  have hd := decodable_linesOf layout text
  exact ⟨inspected_of_decodable hd ▸ follows_start _, (clear_start_iff _).2 hd⟩

/-- **A cursor on a text is a place in one list of entries**, which depends on the text alone. After
any script of calls it tells exactly what the entries before its place say; the next call returns
what that call finds from its place on; and once the log is over nothing moves it any more. -/
theorem script_reads_list (layout : Layout) (text : String) (script : List Call) (call : Call) :
    let es := entriesIn (linesOf layout (utf8 text))
    let k := placeFrom es 0 script
    let c := (Cursor.ofText layout text).after script
    c.StandsAt es k ∧ (c.call call).1 = .ok (call.move es k).1 ∧
      (c.exhausted = true → (c.call call).2 = c) := by
  intro es k c
  obtain ⟨h, hc⟩ := follows_ofText layout text
  obtain ⟨hf, hc'⟩ := after_of_clear script h hc
  exact ⟨hf.stands, (call_of_clear hf hc' call).1, fun hx => by rw [call_of_exhausted hx]⟩

end Cursor

end RunAudit.Log
