import Mathlib.Data.List.Basic
import RunAudit.Proofs.Reading

/-!
# Reading comes to an end

A step of a cursor may return an entry that an earlier step has read, use up any number of blank and
folded lines, or fail and return nothing. In each case less is left to read: the lines ahead and the
entry read in advance, counted together. A line beyond decoding is used up by the step that fails on
it, and by no other.

* `Ahead.Leaves`: what the two searches of a step leave of the lines ahead.
* `Cursor.Uses`: what a step does to what is left to read; `next_uses` is the step lemma.
* `find_induction`, `after_induction`: what steps keep, every script of calls keeps.
* `failures_after`: each line beyond decoding makes one call fail.
* `Drains`: the results of the steps that drain a cursor; `exists_drains` finds them.
* `findWithin`: the loop behind a search, with a bound on its rounds.
* `reading_progresses`: how many steps drain a log, and that no call on it goes on for ever.
-/

namespace RunAudit.Log

open RunAudit.Text

/-- The number of lines beyond decoding. -/
def undecodables (lines : List Line) : Nat := lines.count .undecodable

@[simp] theorem undecodables_nil : undecodables [] = 0 := rfl

@[simp] theorem undecodables_undecodable (lines : List Line) :
    undecodables (.undecodable :: lines) = undecodables lines + 1 := List.count_cons_self

theorem undecodables_of_ne {line : Line} (h : line ≠ .undecodable) (lines : List Line) :
    undecodables (line :: lines) = undecodables lines := List.count_cons_of_ne h

theorem ofBytes_eq_undecodable (layout : Layout) (bytes : List UInt8) :
    Line.ofBytes layout bytes = .undecodable ↔ ¬ ByteArray.IsValidUTF8 ⟨bytes.toArray⟩ := by
  unfold Line.ofBytes String.fromUTF8?
  by_cases h : ByteArray.IsValidUTF8 ⟨bytes.toArray⟩
  · rw [dif_pos h]
    refine iff_of_false (fun hline => ?_) (not_not_intro h)
    cases hp : Entry.parse layout (String.fromUTF8 _ h) <;> simp [hp] at hline
  · rw [dif_neg h]
    exact iff_of_true rfl h

/-- The lines of a log that cannot be decoded are those that are not valid UTF-8. -/
theorem undecodables_linesOf (layout : Layout) (bytes : List UInt8) :
    undecodables (linesOf layout bytes) =
      (pieces 10 bytes).countP fun line => ¬ ByteArray.IsValidUTF8 ⟨line.toArray⟩ := by
  unfold undecodables linesOf
  rw [List.count_eq_countP, List.countP_map]
  refine List.countP_congr fun line _ => ?_
  simpa using ofBytes_eq_undecodable layout line

/-! ### One step -/

/-- What a search leaves of the lines ahead of it. It passes over no line beyond decoding, and the
line that ends it is used up. -/
def Ahead.Leaves (lines : List Line) : Ahead → Prop
  | .nothing => undecodables lines = 0
  | .stopped rest => rest.length < lines.length ∧ undecodables lines = undecodables rest + 1
  | .entry _ rest => rest.length < lines.length ∧ undecodables lines = undecodables rest

theorem Ahead.Leaves.cons {found : Ahead} {line : Line} {lines : List Line}
    (h : found.Leaves lines) (hline : line ≠ .undecodable) : found.Leaves (line :: lines) := by
  have hn := undecodables_of_ne hline lines
  have hl : (line :: lines).length = lines.length + 1 := rfl
  cases found with
  | nothing => exact hn.trans h
  | stopped rest => exact ⟨by have := h.1; omega, hn.trans h.2⟩
  | entry e rest => exact ⟨by have := h.1; omega, hn.trans h.2⟩

theorem leaves_lookAhead (lines : List Line) : (lookAhead lines).Leaves lines := by
  induction lines with
  | nil => exact undecodables_nil
  | cons line lines ih =>
    cases line with
    | blank => exact ih.cons Line.noConfusion
    | undecodable => exact ⟨Nat.lt_succ_self _, undecodables_undecodable lines⟩
    | entry e => exact ⟨Nat.lt_succ_self _, undecodables_of_ne Line.noConfusion lines⟩

theorem leaves_gather (e : Entry) (lines : List Line) : (gather e lines).2.Leaves lines := by
  induction lines generalizing e with
  | nil => exact undecodables_nil
  | cons line lines ih =>
    cases line with
    | blank => exact (ih e).cons Line.noConfusion
    | undecodable => exact ⟨Nat.lt_succ_self _, undecodables_undecodable lines⟩
    | entry next =>
      rw [gather]
      split_ifs with hcontinued
      · exact (ih _).cons Line.noConfusion
      · exact ⟨Nat.lt_succ_self _, undecodables_of_ne Line.noConfusion lines⟩

namespace Cursor

variable {c d : Cursor} {wanted : Marker → Bool}

/-- A cursor that has nothing left to read once it knows that the log is over. -/
def Settled (c : Cursor) : Prop := c.exhausted = true → c.pending = none ∧ c.lines = []

/-- **What a step does to what is left to read.** It finds that nothing is left, or leaves less, and
a step that fails uses up one line beyond decoding. -/
def Uses (c : Cursor) : Except ReadError (Option Entry) × Cursor → Prop
  | (.ok none, c') =>
    c'.exhausted = true ∧ c'.pending = none ∧ c'.lines = [] ∧ undecodables c.lines = 0
  | (.ok (some _), c') => c'.exhausted = false ∧ c'.unread < c.unread ∧
      undecodables c.lines = undecodables c'.lines
  | (.error _, c') => c'.exhausted = false ∧ c'.unread < c.unread ∧
      undecodables c.lines = undecodables c'.lines + 1

variable {step : Except ReadError (Option Entry) × Cursor}

/-- A step may as well have started with more in front of it, as long as it can be decoded. -/
theorem Uses.of_le (h : d.Uses step) (hu : d.unread ≤ c.unread)
    (hn : undecodables c.lines = undecodables d.lines) : c.Uses step := by
  rcases step with ⟨failure | _ | e, c'⟩
  · obtain ⟨hx, hlt, hd⟩ := h
    exact ⟨hx, by omega, by omega⟩
  · obtain ⟨hx, hp, hl, hd⟩ := h
    exact ⟨hx, hp, hl, by omega⟩
  · obtain ⟨hx, hlt, hd⟩ := h
    exact ⟨hx, by omega, by omega⟩

theorem Uses.settled (h : c.Uses step) : step.2.Settled := by
  rcases step with ⟨failure | _ | e, c'⟩
  · intro hx
    exact absurd hx (Bool.eq_false_iff.1 h.1)
  · exact fun _ => ⟨h.2.1, h.2.2.1⟩
  · intro hx
    exact absurd hx (Bool.eq_false_iff.1 h.1)

theorem Uses.unread_le (h : c.Uses step) : step.2.unread ≤ c.unread := by
  rcases step with ⟨failure | _ | e, c'⟩
  · exact Nat.le_of_lt h.2.1
  · obtain ⟨-, hp, hl, -⟩ := h
    have hzero : c'.unread = 0 := by unfold unread; rw [hl, hp]; rfl
    show c'.unread ≤ c.unread
    omega
  · exact Nat.le_of_lt h.2.1

/-- Each line beyond decoding is used up by a failure. -/
theorem Uses.undecodables_eq (h : c.Uses step) :
    undecodables c.lines = undecodables step.2.lines + if step.1.isOk then 0 else 1 := by
  rcases step with ⟨failure | _ | e, c'⟩
  · exact h.2.2
  · obtain ⟨-, -, hl, hn⟩ := h
    show _ = undecodables c'.lines + 0
    rw [hl, hn, undecodables_nil]
  · exact h.2.2

/-- Completing the entry that was read in advance leaves at most the lines ahead. -/
theorem complete_uses (hx : c.exhausted = false) {e : Entry} (hp : c.pending = some e) :
    c.Uses (c.complete e) := by
  have hu : c.unread = c.lines.length + 1 := by unfold unread; rw [hp]; rfl
  have hleaves := leaves_gather e c.lines
  unfold complete
  cases hg : gather e c.lines with
  | mk e' found =>
    rw [hg] at hleaves
    cases found with
    | nothing =>
      refine ⟨hx, ?_, hleaves⟩
      rw [hu]
      exact Nat.succ_pos _
    | stopped rest =>
      obtain ⟨hlt, hn⟩ := hleaves
      refine ⟨hx, ?_, hn⟩
      show rest.length + 0 < _
      omega
    | entry next rest =>
      obtain ⟨hlt, hn⟩ := hleaves
      refine ⟨hx, ?_, hn⟩
      show rest.length + 1 < _
      omega

/-- **The step lemma**: a step leaves less to read, unless nothing was left. -/
theorem next_uses (h : c.Settled) : c.Uses c.next := by
  by_cases hx : c.exhausted = true
  · obtain ⟨hp, hl⟩ := h hx
    have hn : c.next = (.ok none, c) := by unfold next; rw [if_pos hx]
    rw [hn]
    exact ⟨hx, hp, hl, by rw [hl, undecodables_nil]⟩
  have hx' : c.exhausted = false := Bool.not_eq_true _ ▸ hx
  cases hp : c.pending with
  | some e =>
    have hn : c.next = c.complete e := by unfold next; rw [if_neg hx, hp]
    rw [hn]
    exact complete_uses hx' hp
  | none =>
    have hu : c.unread = c.lines.length := by unfold unread; rw [hp]; rfl
    have hleaves := leaves_lookAhead c.lines
    rw [next_of_pending_none hx' hp]
    cases hl : lookAhead c.lines with
    | nothing =>
      rw [hl] at hleaves
      exact ⟨rfl, rfl, rfl, hleaves⟩
    | stopped rest =>
      rw [hl] at hleaves
      obtain ⟨hlt, hn⟩ := hleaves
      refine ⟨hx', ?_, hn⟩
      show rest.length + 0 < _
      omega
    | entry e rest =>
      -- the line of the entry counts as the entry read in advance
      rw [hl] at hleaves
      obtain ⟨hlt, hn⟩ := hleaves
      have hcomplete := complete_uses (c := { c with lines := rest, pending := some e }) hx' rfl
      refine hcomplete.of_le ?_ hn
      show rest.length + 1 ≤ _
      omega

/-! ### Calls and scripts of calls -/

theorem find_eq (wanted : Marker → Bool) (c : Cursor) :
    c.find wanted = match c.next with
      | (.error failure, c') => (.error failure, c')
      | (.ok none, c') => (.ok none, c')
      | (.ok (some e), c') =>
        if wanted e.marker then (.ok (some e), c') else c'.find wanted := by
  rw [find]
  split <;> rename_i hn <;> simp only [hn]

theorem collect_eq (wanted : Marker → Bool) (c : Cursor) :
    c.collect wanted = match c.next with
      | (.error failure, c') => ⟨[], c', some failure⟩
      | (.ok none, c') => ⟨[], c', none⟩
      | (.ok (some e), c') =>
        let later := c'.collect wanted
        if wanted e.marker then { later with found := e :: later.found } else later := by
  rw [collect]
  split <;> rename_i hn <;> simp only [hn]

/-- Reading to the end is a search for nothing. -/
theorem call_readFully (c : Cursor) : c.call .readFully = c.find fun _ => false := by
  simp only [call, readFully]
  fun_induction Cursor.find (fun _ => false) c with
  | case1 c failure c' hn => rw [collect_eq, hn]
  | case2 c c' hn => rw [collect_eq, hn]
  | case3 c e c' hn _ hw => cases hw
  | case4 c e c' hn _ hw ih =>
    rw [← ih, collect_eq, hn]
    rfl

/-- What every step keeps, a search keeps. -/
theorem find_induction {P : Cursor → Prop} (hstep : ∀ c, P c → P c.next.2) (h : P c) :
    P (c.find wanted).2 := by
  fun_induction Cursor.find wanted c with
  | case1 c failure c' hn => simpa [hn] using hstep c h
  | case2 c c' hn => simpa [hn] using hstep c h
  | case3 c e c' hn _ hw => simpa [hn] using hstep c h
  | case4 c e c' hn _ hw ih => exact ih (by simpa [hn] using hstep c h)

/-- **What every step keeps, every script of calls keeps.** -/
theorem after_induction {P : Cursor → Prop} (hstep : ∀ c, P c → P c.next.2) (h : P c)
    (script : List Call) : P (c.after script) := by
  induction script generalizing c with
  | nil => exact h
  | cons call script ih =>
    refine ih ?_
    cases call with
    | next => exact hstep c h
    | find wanted => exact find_induction hstep h
    | readFully =>
      rw [call_readFully]
      exact find_induction hstep h

theorem settled_after (h : c.Settled) (script : List Call) : (c.after script).Settled :=
  after_induction (P := Settled) (fun _ hc => (next_uses hc).settled) h script

/-- No script leaves more to read than there was. -/
theorem unread_after_le (h : c.Settled) (script : List Call) :
    (c.after script).unread ≤ c.unread := by
  have hkept := after_induction (P := fun d => d.Settled ∧ d.unread ≤ c.unread)
    (fun d hd => ⟨(next_uses hd.1).settled, Nat.le_trans (next_uses hd.1).unread_le hd.2⟩)
    ⟨h, Nat.le_refl _⟩ script
  exact hkept.2

/-- The results of calls one after another. -/
def answers (c : Cursor) : List Call → List (Except ReadError (Option Entry))
  | [] => []
  | call :: script => (c.call call).1 :: (c.call call).2.answers script

/-- The number of results that are errors. -/
def failures (results : List (Except ReadError (Option Entry))) : Nat :=
  results.countP fun result => ! result.isOk

theorem failures_cons (result : Except ReadError (Option Entry))
    (results : List (Except ReadError (Option Entry))) :
    failures (result :: results) = failures results + if result.isOk then 0 else 1 := by
  unfold failures
  rw [List.countP_cons]
  cases result <;> rfl

/-- A search fails on the first line beyond decoding that it meets. -/
theorem find_undecodables (wanted : Marker → Bool) (h : c.Settled) :
    undecodables c.lines =
      undecodables (c.find wanted).2.lines + if (c.find wanted).1.isOk then 0 else 1 := by
  fun_induction Cursor.find wanted c with
  | case1 c failure c' hn => simpa [hn] using (next_uses h).undecodables_eq
  | case2 c c' hn => simpa [hn] using (next_uses h).undecodables_eq
  | case3 c e c' hn _ hw => simpa [hn] using (next_uses h).undecodables_eq
  | case4 c e c' hn _ hw ih =>
    have huses := next_uses h
    rw [hn] at huses
    rw [huses.undecodables_eq, ← ih huses.settled]
    rfl

theorem call_undecodables (call : Call) (h : c.Settled) :
    undecodables c.lines =
      undecodables (c.call call).2.lines + if (c.call call).1.isOk then 0 else 1 := by
  cases call with
  | next => exact (next_uses h).undecodables_eq
  | find wanted => exact find_undecodables wanted h
  | readFully =>
    rw [call_readFully]
    exact find_undecodables _ h

/-- **Each line beyond decoding makes one call fail**, whatever is called. -/
theorem failures_after (h : c.Settled) (script : List Call) :
    failures (c.answers script) + undecodables (c.after script).lines = undecodables c.lines := by
  induction script generalizing c with
  | nil => exact Nat.zero_add _
  | cons call script ih =>
    have hcall := call_undecodables call h
    have hrest := ih (c := (c.call call).2) (settled_after h [call])
    rw [answers, failures_cons, after]
    omega

theorem answers_of_exhausted (h : c.exhausted = true) (script : List Call) :
    c.answers script = List.replicate script.length (.ok none) := by
  induction script with
  | nil => rfl
  | cons call script ih =>
    rw [answers, call_of_exhausted h, ih]
    rfl

/-! ### How long it takes -/

/-- **The results of the steps that drain a cursor**: each uses something up, and every step after
them finds the log over. -/
structure Drains (c : Cursor) (results : List (Except ReadError (Option Entry))) : Prop where
  length_le : results.length ≤ c.unread
  not_over : .ok none ∉ results
  answers_eq : ∀ m, c.answers (List.replicate (results.length + m) .next) =
    results ++ List.replicate m (.ok none)
  exhausted : (c.after (List.replicate (results.length + 1) .next)).exhausted = true

variable {results : List (Except ReadError (Option Entry))}

theorem drains_nil {c' : Cursor} (hn : c.next = (.ok none, c')) (hx : c'.exhausted = true) :
    c.Drains [] := by
  have hcall : c.call .next = (.ok none, c') := hn
  refine ⟨Nat.zero_le _, List.not_mem_nil, fun m => ?_, ?_⟩
  · rw [List.length_nil, Nat.zero_add, List.nil_append]
    cases m with
    | zero => rfl
    | succ m =>
      rw [List.replicate_succ, List.replicate_succ, answers, hcall, answers_of_exhausted hx,
        List.length_replicate]
  · show (c.call .next).2.exhausted = true
    rw [hcall]
    exact hx

/-- One more step in front of those that drain a cursor. -/
theorem Drains.cons {result : Except ReadError (Option Entry)} {c' : Cursor}
    (hn : c.next = (result, c')) (hne : result ≠ .ok none) (hu : c'.unread < c.unread)
    (h : c'.Drains results) : c.Drains (result :: results) := by
  have hcall : c.call .next = (result, c') := hn
  obtain ⟨hlen, hmem, hans, hend⟩ := h
  refine ⟨?_, ?_, fun m => ?_, ?_⟩
  · rw [List.length_cons]
    omega
  · rw [List.mem_cons, not_or]
    exact ⟨Ne.symm hne, hmem⟩
  · rw [List.length_cons, Nat.add_right_comm, List.replicate_succ, answers, hcall, hans,
      List.cons_append]
  · rw [List.length_cons, List.replicate_succ, after, hcall]
    exact hend

/-- **A cursor is drained by no more steps than there is left to read.** -/
theorem exists_drains (h : c.Settled) : ∃ results, c.Drains results := by
  -- by induction on what is left to read
  induction hu : c.unread using Nat.strongRecOn generalizing c with
  | _ n ih =>
    subst hu
    have huses := next_uses h
    cases hn : c.next with
    | mk result c' =>
      rw [hn] at huses
      rcases result with failure | _ | e
      · obtain ⟨results, hdrains⟩ := ih c'.unread huses.2.1 huses.settled rfl
        exact ⟨_, hdrains.cons hn (by simp) huses.2.1⟩
      · exact ⟨[], drains_nil hn huses.1⟩
      · obtain ⟨results, hdrains⟩ := ih c'.unread huses.2.1 huses.settled rfl
        exact ⟨_, hdrains.cons hn (by simp) huses.2.1⟩

/-- All lines beyond decoding have failed once the log is over. -/
theorem Drains.failures_eq (hd : c.Drains results) (h : c.Settled) :
    failures results = undecodables c.lines := by
  have hsettled := settled_after h (List.replicate (results.length + 1) .next)
  have hcount := failures_after h (List.replicate (results.length + 1) .next)
  obtain ⟨-, hlines⟩ := hsettled hd.exhausted
  have happend : failures (results ++ [.ok none]) = failures results := by
    unfold failures
    rw [List.countP_append]
    rfl
  rw [hd.answers_eq 1, hlines, undecodables_nil] at hcount
  exact happend ▸ hcount

/-- A search as a loop over steps that gives up after some rounds. -/
def findWithin (wanted : Marker → Bool) (c : Cursor) :
    Nat → Option (Except ReadError (Option Entry) × Cursor)
  | 0 => none
  | rounds + 1 =>
    match c.next with
    | (.error failure, c') => some (.error failure, c')
    | (.ok none, c') => some (.ok none, c')
    | (.ok (some e), c') =>
      if wanted e.marker then some (.ok (some e), c') else c'.findWithin wanted rounds

/-- **A search is over within as many rounds as there is left to read**, and one more to find that
nothing is. -/
theorem findWithin_eq_find (wanted : Marker → Bool) {rounds : Nat} (h : c.unread < rounds) :
    c.findWithin wanted rounds = some (c.find wanted) := by
  induction rounds generalizing c with
  | zero => omega
  | succ rounds ih =>
    rw [findWithin, find_eq]
    cases hn : c.next with
    | mk result c' =>
      rcases result with failure | _ | e
      · rfl
      · rfl
      · have hlt := unread_next_lt hn
        have hrest := ih (show c'.unread < rounds by omega)
        by_cases hw : wanted e.marker = true
        · simp only [if_pos hw]
        · simp only [if_neg hw, hrest]

/-- **Reading always makes progress.** Over a stream of `n` lines, at most `n` steps return an entry
or fail, one of them for each line that is not valid UTF-8, and every step after them finds the log
over. After any script of calls, whatever they were and however they ended, a search for any markers
and reading to the end are over within `n + 1` steps; as many calls have failed as lines that are not
valid UTF-8 are no longer ahead; and a cursor that knows the log to be over has nothing left to
read. -/
theorem reading_progresses (layout : Layout) (bytes : List UInt8) :
    let n := (pieces 10 bytes).length
    let invalid := (pieces 10 bytes).countP fun line => ¬ ByteArray.IsValidUTF8 ⟨line.toArray⟩
    let start := Cursor.ofBytes layout bytes
    (∃ results : List (Except ReadError (Option Entry)),
      results.length ≤ n ∧ .ok none ∉ results ∧ failures results = invalid ∧
        ∀ m, start.answers (List.replicate (results.length + m) .next) =
          results ++ List.replicate m (.ok none)) ∧
      ∀ script : List Call,
        let c := start.after script
        (∀ wanted, c.findWithin wanted (n + 1) = some (c.call (.find wanted))) ∧
          c.findWithin (fun _ => false) (n + 1) = some (c.call .readFully) ∧
          failures (start.answers script) + undecodables c.lines = invalid ∧
          (c.exhausted = true → c.pending = none ∧ c.lines = []) := by
  intro n invalid start
  have hsettled : start.Settled := by
    intro hx
    cases hx
  have hn : start.unread = n := List.length_map ..
  have hinvalid : undecodables start.lines = invalid := undecodables_linesOf layout bytes
  refine ⟨?_, fun script => ?_⟩
  · obtain ⟨results, hdrains⟩ := exists_drains hsettled
    exact ⟨results, hn ▸ hdrains.length_le, hdrains.not_over,
      (hdrains.failures_eq hsettled).trans hinvalid, hdrains.answers_eq⟩
  · intro c
    have hunread : c.unread < n + 1 := by
      have hle : c.unread ≤ start.unread := unread_after_le hsettled script
      omega
    refine ⟨fun wanted => findWithin_eq_find wanted hunread, ?_, ?_, settled_after hsettled script⟩
    · rw [call_readFully]
      exact findWithin_eq_find _ hunread
    · exact (failures_after hsettled script).trans hinvalid

end Cursor

end RunAudit.Log
