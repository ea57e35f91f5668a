import Mathlib.Data.List.Basic
import RunAudit.Experiment.Run
import RunAudit.Proofs.Reading

/-!
# Outcomes of checks

What a check finds, put together from what its parts find, and what becomes of it in the report of
a check and in that of an experiment.

* `result_eachFrom`, `of_eachFrom`: a check of every item succeeds exactly if each of its parts
  does, and then nothing of any part is left out.
* `Passes`: a check that ran to its end and found no error; it passes exactly if its parts do.
* `isValid_ofAudit`: a report is valid exactly if its check ran to its end and found no error.
* `sweep_start`: reading a log comes to its end exactly if every line can be decoded, and then the
  check has seen every entry.
* `verdict_failed`: an experiment fails exactly if some required check has no valid report.
-/

namespace RunAudit

open Log

/-- The message of a finding that has one, however severe it is. -/
@[simp] def Finding.message? : Finding → Option String
  | info message | warning message | error message => some message
  | event _ => none

/-- Findings without an error. -/
def Faultless (findings : List Finding) : Prop := findings.filterMap Finding.error? = []

instance (findings : List Finding) : Decidable (Faultless findings) :=
  inferInstanceAs (Decidable (_ = _))

@[simp] theorem faultless_nil : Faultless [] := rfl

@[simp] theorem faultless_info (m : String) (fs : List Finding) :
    Faultless (.info m :: fs) ↔ Faultless fs := Iff.rfl

@[simp] theorem faultless_warning (m : String) (fs : List Finding) :
    Faultless (.warning m :: fs) ↔ Faultless fs := Iff.rfl

@[simp] theorem faultless_event (e : Event) (fs : List Finding) :
    Faultless (.event e :: fs) ↔ Faultless fs := Iff.rfl

@[simp] theorem not_faultless_error (m : String) (fs : List Finding) :
    ¬ Faultless (.error m :: fs) := List.cons_ne_nil _ _

@[simp] theorem faultless_append (fs gs : List Finding) :
    Faultless (fs ++ gs) ↔ Faultless fs ∧ Faultless gs := by
  unfold Faultless
  rw [List.filterMap_append, List.append_eq_nil_iff]

theorem faultless_flatten (parts : List (List Finding)) :
    Faultless parts.flatten ↔ ∀ fs ∈ parts, Faultless fs := by
  induction parts with
  | nil => simp
  | cons fs parts ih => simp [ih]

theorem faultless_flatMap {α : Type} (f : α → List Finding) (as : List α) :
    Faultless (as.flatMap f) ↔ ∀ a ∈ as, Faultless (f a) := by
  rw [List.flatMap_def, faultless_flatten, List.forall_mem_map]

theorem faultless_mapIdx {α : Type} (f : Nat → α → List Finding) (as : List α) :
    Faultless (as.mapIdx f).flatten ↔ ∀ i a, as[i]? = some a → Faultless (f i a) := by
  rw [faultless_flatten]
  constructor
  · intro h i a ha
    obtain ⟨hi, rfl⟩ := List.getElem?_eq_some_iff.1 ha
    exact h _ (List.mem_mapIdx.2 ⟨i, hi, rfl⟩)
  · intro h fs hfs
    obtain ⟨i, hi, rfl⟩ := List.mem_mapIdx.1 hfs
    exact h i _ (List.getElem?_eq_getElem hi)

/-- What is picked out of what is said of each item in turn. -/
theorem filterMap_flatten_mapIdx {α β γ : Type} (f : Nat → α → List β) (g : β → Option γ)
    (as : List α) :
    (as.mapIdx f).flatten.filterMap g = (as.mapIdx fun i a => (f i a).filterMap g).flatten := by
  induction as generalizing f with
  | nil => rfl
  | cons a as ih =>
    rw [List.mapIdx_cons, List.mapIdx_cons, List.flatten_cons, List.flatten_cons,
      List.filterMap_append, ih]

theorem faultless_iff (fs : List Finding) : Faultless fs ↔ ∀ message, .error message ∉ fs := by
  unfold Faultless
  rw [List.filterMap_eq_nil_iff]
  constructor
  · intro h message hm
    cases h _ hm
  · intro h f hf
    cases f with
    | error message => exact absurd hf (h message)
    | _ => rfl

namespace Audit

variable {σ α β : Type} {first : Audit σ α}

@[simp] theorem findings_done (fs : List Finding) (inputs : σ) (a : α) :
    (done fs inputs a).findings = fs := rfl

@[simp] theorem inputs_done (fs : List Finding) (inputs : σ) (a : α) :
    (done fs inputs a).inputs = inputs := rfl

@[simp] theorem result_done (fs : List Finding) (inputs : σ) (a : α) :
    (done fs inputs a).result = .ok a := rfl

theorem andThen_of_ok {a : α} (h : first.result = .ok a) (next : σ → α → Audit σ β) :
    first.andThen next = { next first.inputs a with
      findings := first.findings ++ (next first.inputs a).findings } := by
  unfold andThen
  rw [h]

/-- Two parts of a check both come to their ends if the whole does. -/
theorem result_andThen {next : σ → α → Audit σ β} {b : β} :
    (first.andThen next).result = .ok b ↔
      ∃ a, first.result = .ok a ∧ (next first.inputs a).result = .ok b := by
  unfold andThen
  cases first.result <;> simp

theorem conclude_of_ok {a : α} (h : first.result = .ok a) (more : σ → α → List Finding) :
    first.conclude more =
      .done (first.findings ++ more first.inputs a) first.inputs () := by
  unfold conclude
  rw [andThen_of_ok h]
  rfl

/-- Concluding a check does not make it fail. -/
theorem result_conclude (more : σ → α → List Finding) :
    (first.conclude more).result = .ok () ↔ ∃ a, first.result = .ok a := by
  cases h : first.result with
  | error failure =>
    unfold conclude andThen
    rw [h]
    simp
  | ok a =>
    rw [conclude_of_ok h]
    simp [done]

/-- **A check of every item succeeds exactly if its part does on each**, and its results are
theirs. -/
theorem result_eachFrom (check : Nat → σ → Audit σ α) (place : Nat) (items : List σ)
    (as : List α) :
    (eachFrom check place items).result = .ok as ↔
      items.mapIdx (fun i item => (check (place + i) item).result) = as.map .ok := by
  induction items generalizing place as with
  | nil => simp [eachFrom, done, eq_comm]
  | cons item items ih =>
    have hi := ih (place + 1)
    rw [List.mapIdx_cons, eachFrom]
    simp only [Nat.add_zero, Nat.add_right_comm, Nat.add_assoc] at hi ⊢
    cases hf : (check place item).result with
    | error failure => cases as <;> simp
    | ok a =>
      cases hl : (eachFrom check (place + 1) items).result with
      | error failure =>
        -- no results make the rest succeed
        refine iff_of_false (by simp [Except.map]) ?_
        intro h
        cases as with
        | nil => cases h
        | cons b as =>
          rw [List.map_cons, List.cons.injEq] at h
          have hr := (hi as).2 h.2
          rw [hl] at hr
          cases hr
      | ok later =>
        simp only [hl, Except.ok.injEq] at hi
        cases as with
        | nil => simp [Except.map]
        | cons b as => simp [Except.map, ← hi as]

/-- A check of every item, each part of which succeeds with a result that its place does not
matter for. -/
theorem result_each {check : Nat → σ → Audit σ α} {items : List σ} {f : σ → α}
    (h : ∀ place, ∀ item ∈ items, (check place item).result = .ok (f item)) :
    (each check items).result = .ok (items.map f) := by
  refine (result_eachFrom check 0 items _).2 (List.ext_getElem (by simp) fun i hi _ => ?_)
  have hlt : i < items.length := by simpa using hi
  simp [h _ _ (List.getElem_mem hlt)]

/-- **Nothing that a part finds is left out.** -/
theorem of_eachFrom {check : Nat → σ → Audit σ α} {place : Nat} {items : List σ} {as : List α}
    (h : (eachFrom check place items).result = .ok as) :
    (eachFrom check place items).findings =
        (items.mapIdx fun i item => (check (place + i) item).findings).flatten ∧
      (eachFrom check place items).inputs =
        items.mapIdx fun i item => (check (place + i) item).inputs := by
  induction items generalizing place as with
  | nil => exact ⟨rfl, rfl⟩
  | cons item items ih =>
    rw [eachFrom] at h ⊢
    cases hf : (check place item).result with
    | error failure => simp [hf] at h
    | ok a =>
      cases hl : (eachFrom check (place + 1) items).result with
      | error failure => simp [hf, hl, Except.map] at h
      | ok later =>
        obtain ⟨h1, h2⟩ := ih hl
        simp [h1, h2, Nat.add_right_comm, Nat.add_assoc]

/-- **A check of every item that concludes with more**, if it comes to its end on each. -/
theorem conclude_each {check : Nat → σ → Audit σ α} {items : List σ} {f : σ → α}
    (h : ∀ place, ∀ item ∈ items, (check place item).result = .ok (f item))
    (more : List σ → List α → List Finding) :
    (each check items).conclude more =
      .done ((items.mapIdx fun i item => (check i item).findings).flatten ++
          more (items.mapIdx fun i item => (check i item).inputs) (items.map f))
        (items.mapIdx fun i item => (check i item).inputs) () := by
  have hresult := result_each h
  obtain ⟨hfindings, hinputs⟩ := of_eachFrom hresult
  simp only [Nat.zero_add] at hfindings hinputs
  rw [conclude_of_ok hresult, each, hfindings, hinputs]

theorem findings_conclude (more : σ → α → List Finding) :
    first.findings ⊆ (first.conclude more).findings := by
  cases h : first.result with
  | error failure =>
    unfold conclude andThen
    rw [h]
    exact List.Subset.refl _
  | ok a =>
    rw [conclude_of_ok h]
    exact List.subset_append_left _ _

/-- What a check of every item that succeeds has made of one of them. -/
theorem of_each {check : Nat → σ → Audit σ α} {items : List σ} {as : List α}
    (h : (each check items).result = .ok as) {i : Nat} {item : σ} (hi : items[i]? = some item) :
    (∃ a, (check i item).result = .ok a) ∧
      (check i item).findings ⊆ (each check items).findings := by
  have hr := (result_eachFrom check 0 items as).1 h
  obtain ⟨hf, -⟩ := of_eachFrom h
  simp only [Nat.zero_add] at hr hf
  obtain ⟨hlt, rfl⟩ := List.getElem?_eq_some_iff.1 hi
  constructor
  · have hm : (check i items[i]).result ∈ as.map Except.ok :=
      hr ▸ List.mem_mapIdx.2 ⟨i, hlt, rfl⟩
    obtain ⟨a, -, ha⟩ := List.mem_map.1 hm
    exact ⟨a, ha.symm⟩
  · intro f hmem
    rw [each, hf, List.mem_flatten]
    exact ⟨_, List.mem_mapIdx.2 ⟨i, hlt, rfl⟩, hmem⟩

/-- **A check that passes**: it has run to its end and found no error. -/
def Passes (a : Audit σ α) : Prop := (∃ x, a.result = .ok x) ∧ Faultless a.findings

theorem passes_iff_isOk (a : Audit σ α) :
    a.Passes ↔ a.result.isOk = true ∧ Faultless a.findings := by
  unfold Passes
  cases a.result <;> simp [Except.isOk, Except.toBool]

instance (a : Audit σ α) : Decidable a.Passes := decidable_of_iff' _ a.passes_iff_isOk

@[simp] theorem passes_done (fs : List Finding) (inputs : σ) (a : α) :
    (done fs inputs a).Passes ↔ Faultless fs := by
  simp [Passes]

@[simp] theorem passes_within {τ : Type} (a : Audit σ α) (wrap : σ → τ) :
    (a.within wrap).Passes ↔ a.Passes := Iff.rfl

/-- A check that fails does not pass. -/
theorem not_passes_of_error {a : Audit σ α} {failure : Failure} (h : a.result = .error failure) :
    ¬ a.Passes := by
  rintro ⟨⟨x, hx⟩, -⟩
  rw [h] at hx
  cases hx

theorem passes_andThen (next : σ → α → Audit σ β) :
    (first.andThen next).Passes ↔
      ∃ a, first.result = .ok a ∧ Faultless first.findings ∧ (next first.inputs a).Passes := by
  cases h : first.result with
  | error failure =>
    have he : (first.andThen next).result = .error failure := by unfold andThen; rw [h]
    exact iff_of_false (not_passes_of_error he) (by simp)
  | ok a =>
    rw [andThen_of_ok h]
    simp [Passes, and_left_comm]

theorem passes_conclude (more : σ → α → List Finding) :
    (first.conclude more).Passes ↔
      ∃ a, first.result = .ok a ∧ Faultless first.findings ∧ Faultless (more first.inputs a) := by
  unfold conclude
  simp only [passes_andThen, passes_done]

theorem passes_eachFrom (check : Nat → σ → Audit σ α) (place : Nat) (items : List σ) :
    (eachFrom check place items).Passes ↔
      ∀ i item, items[i]? = some item → (check (place + i) item).Passes := by
  induction items generalizing place with
  | nil => simp [eachFrom]
  | cons item items ih =>
    have hsplit : (∀ i x, (item :: items)[i]? = some x → (check (place + i) x).Passes) ↔
        (check place item).Passes ∧ (eachFrom check (place + 1) items).Passes := by
      rw [ih]
      constructor
      · intro h
        refine ⟨h 0 item rfl, fun i x hx => ?_⟩
        have hi := h (i + 1) x hx
        rwa [Nat.add_comm i 1, ← Nat.add_assoc] at hi
      · rintro ⟨h0, h⟩ i x hx
        cases i with
        | zero => cases hx; exact h0
        | succ i =>
          rw [Nat.add_comm i 1, ← Nat.add_assoc]
          exact h i x hx
    rw [hsplit, eachFrom]
    unfold Passes
    cases hf : (check place item).result with
    | error failure => simp
    | ok a =>
      cases hl : (eachFrom check (place + 1) items).result with
      | error failure => simp [hl, Except.map]
      | ok later => simp [hl, Except.map]

/-- **A check of every item passes exactly if it passes on each.** -/
theorem passes_each (check : Nat → σ → Audit σ α) (items : List σ) :
    (each check items).Passes ↔ ∀ i item, items[i]? = some item → (check i item).Passes := by
  unfold each
  simpa using passes_eachFrom check 0 items

/-- A check of every item, if it is the item and not its place that decides. -/
theorem passes_each_of_iff {check : Nat → σ → Audit σ α} {items : List σ} {P : σ → Prop}
    (h : ∀ place, ∀ item ∈ items, ((check place item).Passes ↔ P item)) :
    (each check items).Passes ↔ ∀ item ∈ items, P item := by
  rw [passes_each]
  constructor
  · intro hpass item hmem
    obtain ⟨i, hi⟩ := List.mem_iff_getElem?.1 hmem
    exact (h i item hmem).1 (hpass i item hi)
  · intro hall i item hi
    have hmem := List.mem_of_getElem? hi
    exact (h i item hmem).2 (hall item hmem)

end Audit

/-! ### Reports -/

/-- All messages of a report. -/
def Report.messages (r : Report) : List String := r.infos ++ r.warnings ++ r.errors

/-- **A report is valid exactly if its check ran to its end and found no error.** -/
theorem isValid_ofAudit {σ : Type} (validator : String) (a : Audit σ Unit) :
    (∃ r, Report.ofAudit validator a = .ok r ∧ r.isValid = true) ↔
      a.result = .ok () ∧ Faultless a.findings := by
  unfold Report.ofAudit
  cases a.result with
  | error failure => simp [Except.map]
  | ok u => simp [Except.map, Report.isValid, Faultless]

/-- **A validator that comes to a valid report.** -/
def Validator.Passes (v : Validator) : Prop := ∃ r, v.report = .ok r ∧ r.isValid = true

theorem Validator.passes_iff (v : Validator) : v.Passes ↔ v.audit.Passes := by
  unfold Validator.Passes Validator.report
  rw [isValid_ofAudit, Audit.Passes]
  exact and_congr_left fun _ => ⟨fun h => ⟨(), h⟩, fun ⟨_, h⟩ => h⟩

instance (v : Validator) : Decidable v.Passes := decidable_of_iff' _ v.passes_iff

/-- A check with a report has run to its end, and the report says what it found and nothing else. -/
theorem of_ofAudit {σ : Type} {validator : String} {a : Audit σ Unit} {r : Report}
    (h : Report.ofAudit validator a = .ok r) :
    a.result = .ok () ∧
      ∀ message, message ∈ r.messages ↔ ∃ f ∈ a.findings, f.message? = some message := by
  unfold Report.ofAudit at h
  cases ha : a.result with
  | error failure => simp [ha, Except.map] at h
  | ok u =>
    simp only [ha, Except.map, Except.ok.injEq] at h
    subst h
    refine ⟨rfl, fun message => ?_⟩
    simp only [Report.messages, Report.extend, List.nil_append, List.mem_append,
      List.mem_filterMap]
    constructor
    · rintro ((⟨f, hf, hm⟩ | ⟨f, hf, hm⟩) | ⟨f, hf, hm⟩) <;> refine ⟨f, hf, ?_⟩ <;>
        cases f <;> simp_all [Finding.info?, Finding.warning?, Finding.error?]
    · rintro ⟨f, hf, hm⟩
      cases f with
      | info m => exact .inl (.inl ⟨_, hf, hm⟩)
      | warning m => exact .inl (.inr ⟨_, hf, hm⟩)
      | error m => exact .inr ⟨_, hf, hm⟩
      | event e => cases hm

/-! ### Logs -/

namespace Check

variable {node : Nat} {source : String} {judge : Entry → Judgement} {es : List Entry}

theorem mem_exceptionFindings {e : Entry} {f : Finding} (he : e ∈ es)
    (hf : (judge e).finding? (exceptionMessage node source e) = some f) :
    f ∈ exceptionFindings node source judge es :=
  List.mem_filterMap.2 ⟨e, he, hf⟩

theorem faultless_exceptionFindings :
    Faultless (exceptionFindings node source judge es) ↔ ∀ e ∈ es, judge e ≠ .error := by
  rw [faultless_iff]
  constructor
  · intro h e he hj
    exact h (exceptionMessage node source e) (mem_exceptionFindings he (by rw [hj]; rfl))
  · intro h message hm
    obtain ⟨e, he, hf⟩ := List.mem_filterMap.1 hm
    cases hj : judge e with
    | error => exact h e he hj
    | _ => rw [hj] at hf; cases hf

end Check

/-- A node of which the log, if there is one, is a text and has not been read yet. -/
def Node.Fresh (node : Node) : Prop := ∀ c, node.log = some c → ∃ text, c = .ofText .platform text

/-- The entries of the log of a node, as long as it has not been read. -/
def Node.entries? (node : Node) : Option (List Entry) := node.log.map fun c => entriesIn c.lines

/-- A check of the log of a node: of its lines, all of which can be decoded, if it has a log. -/
theorem auditLog_cases {α : Type} {n : Node} (h : n.Fresh) (validator : String) (missing : α)
    (check : Nat → Cursor → Audit Cursor α) (place : Nat) :
    (n.entries? = none ∧ n.auditLog validator missing check place =
      .done (logMissing validator place) n missing) ∨
    ∃ lines, Decodable lines ∧ n.entries? = some (entriesIn lines) ∧
      n.auditLog validator missing check place =
        (check place { lines }).within fun c => { n with log := some c } := by
  unfold Node.auditLog Node.entries?
  cases hl : n.log with
  | none => exact .inl ⟨rfl, rfl⟩
  | some c =>
    obtain ⟨text, rfl⟩ := h c hl
    exact .inr ⟨_, decodable_linesOf .platform text, rfl, rfl⟩

/-- **Searching a log**, from any place in it, either comes across a line beyond decoding, or it
finds what a search of the list of entries finds. -/
theorem seek_from (wanted : Marker → Bool) {c : Cursor} {es : List Entry} {k : Nat}
    (h : c.Follows es k) :
    (∃ c', seek wanted c = .done [] c' ((Call.find wanted).move es k).1 ∧
      c'.Follows es ((Call.find wanted).move es k).2 ∧ (c.Clear ↔ c'.Clear)) ∨
    (¬ c.Clear ∧ (seek wanted c).result = .error (.unreadable .undecodable)) := by
  have hm := Cursor.find_meets wanted h
  unfold seek
  cases hf : c.find wanted with
  | mk answer c' =>
    rw [hf] at hm
    cases answer with
    | error failure =>
      cases failure
      exact .inr ⟨hm.2, rfl⟩
    | ok answer =>
      obtain ⟨rfl, hc', -⟩ := hm
      exact .inl ⟨c', rfl, hc', Cursor.clear_of_find h hf⟩

/-- **Reading on to the end of a log**, from any place in it, either comes across a line beyond
decoding, or it has seen each entry from that place on. -/
theorem sweep_from (wanted : Marker → Bool) (report : List Entry → List Finding) {c : Cursor}
    {es : List Entry} {k : Nat} (h : c.Follows es k) :
    (c.Clear ∧ ∃ c',
      sweep wanted report c =
        .done (report ((es.drop k).filter fun e => wanted e.marker)) c'
          ((es.drop k).filter fun e => wanted e.marker) ∧
      c'.StandsAt es es.length) ∨
    (¬ c.Clear ∧ (sweep wanted report c).result = .error (.unreadable .undecodable)) := by
  unfold sweep
  rcases Cursor.collect_cases wanted h with ⟨h1, h2, -, h4, h5, -⟩ | ⟨h1, h2, -⟩
  · refine .inl ⟨h2, (c.collect wanted).cursor, ?_, h5.stands⟩
    simp only [h1, h4]
    rfl
  · refine .inr ⟨h2, ?_⟩
    simp only [h1]
    rfl

/-- A search in a log that can be read to its end. -/
theorem seek_of_clear (wanted : Marker → Bool) {c : Cursor} {es : List Entry} {k : Nat}
    (h : c.Follows es k) (hc : c.Clear) :
    ∃ c', seek wanted c = .done [] c' ((Call.find wanted).move es k).1 ∧
      c'.Follows es ((Call.find wanted).move es k).2 ∧ c'.Clear := by
  rcases seek_from wanted h with ⟨c', hs, hf, hclear⟩ | ⟨hn, -⟩
  · exact ⟨c', hs, hf, hclear.1 hc⟩
  · exact absurd hc hn

/-- Reading on to the end of a log collects all its exceptions. -/
theorem finish_of_clear {c : Cursor} {es : List Entry} {k : Nat} (h : c.Follows es k)
    (hc : c.Clear) :
    ∃ c', finish c = .done [] c' [] ∧ c'.exceptions = es.filter (·.isException) := by
  rcases sweep_from (fun _ => false) (fun _ => []) h with ⟨-, c', hs, hat⟩ | ⟨hn, -⟩
  · refine ⟨c', ?_, by rw [hat.exceptions, List.take_length]⟩
    rw [finish, hs, List.filter_false]
  · exact absurd hc hn

/-- **Reading a log to its end** either comes across a line beyond decoding, or it has seen each
entry of the log. -/
theorem sweep_start (wanted : Marker → Bool) (report : List Entry → List Finding)
    (lines : List Line) :
    (Decodable lines ∧ ∃ c,
      sweep wanted report { lines } =
        .done (report ((entriesIn lines).filter fun e => wanted e.marker)) c
          ((entriesIn lines).filter fun e => wanted e.marker) ∧
      c.StandsAt (entriesIn lines) (entriesIn lines).length) ∨
    (¬ Decodable lines ∧
      (sweep wanted report { lines }).result = .error (.unreadable .undecodable)) := by
  have hd := Cursor.clear_start_iff lines
  rcases sweep_from wanted report (Cursor.follows_start lines) with ⟨hc, hs⟩ | ⟨hc, hs⟩
  · have hl := hd.1 hc
    rw [inspected_of_decodable hl] at hs
    exact .inl ⟨hl, hs⟩
  · exact .inr ⟨fun hl => hc (hd.2 hl), hs⟩

/-- The exceptions that have been collected when a log has been read to its end. -/
theorem sweep_cases (wanted : Marker → Bool) (report : List Entry → List Finding)
    (lines : List Line) :
    (Decodable lines ∧ ∃ c,
      sweep wanted report { lines } =
        .done (report ((entriesIn lines).filter fun e => wanted e.marker)) c
          ((entriesIn lines).filter fun e => wanted e.marker) ∧
      c.exceptions = (entriesIn lines).filter (·.isException)) ∨
    (¬ Decodable lines ∧
      (sweep wanted report { lines }).result = .error (.unreadable .undecodable)) := by
  refine (sweep_start wanted report lines).imp_left fun ⟨hd, c, hs, hat⟩ => ⟨hd, c, hs, ?_⟩
  rw [hat.exceptions, List.take_length]

/-! ### Experiments -/

/-- What a required check comes to, seen from the outcome of its kind. -/
theorem outcome_ok {source : Source} {c : Config.ExperimentConfig} {kind : Kind} {r : Report}
    (h : outcome source c kind = .ok r) :
    ∃ v, Validator.create kind source c = .ok v ∧ Report.ofAudit v.name v.audit = .ok r := by
  unfold outcome at h
  cases hv : Validator.create kind source c with
  | error failure => simp [hv, Except.bind] at h
  | ok v =>
    rw [hv] at h
    exact ⟨v, rfl, h⟩

theorem mem_required (c : Config.ExperimentConfig) (kind : Kind) :
    kind ∈ required c ↔ kind.isRequired c = true := by
  unfold required
  rw [List.mem_filter, and_iff_right_iff_imp]
  intro _
  cases kind <;> decide

/-- The failure of a check that could not run. -/
def failure? {α : Type} : Except Failure α → Option Failure
  | .ok _ => none
  | .error failure => some failure

theorem failure?_eq_none {α : Type} (outcome : Except Failure α) :
    failure? outcome = none ↔ ∃ a, outcome = .ok a := by
  cases outcome <;> simp [failure?]

/-- Each validator that cannot run adds its own failure. -/
theorem foldl_add_failures (kinds : List Kind) (f : Kind → Except Failure Report)
    (x : ExperimentReport) :
    (kinds.foldl (fun x kind => x.add kind.name (f kind)) x).failures =
      x.failures ++ kinds.filterMap fun kind => (failure? (f kind)).map (kind.name, ·) := by
  induction kinds generalizing x with
  | nil => simp
  | cons kind kinds ih =>
    rw [List.foldl_cons, ih]
    cases h : f kind <;> simp [ExperimentReport.add, failure?, h]

/-- **The failures of an experiment are those of its required validators**, each as it comes out on
its own, and in their order. -/
theorem failures_runAll_eq (source : Source) (c : Config.ExperimentConfig) :
    (runAll source c).failures =
      (required c).filterMap fun kind =>
        (failure? (outcome source c kind)).map (kind.name, ·) := by
  simpa [runAll] using foldl_add_failures (required c) (outcome source c) {}

/-- An experiment records no failure exactly if each required check has a report. -/
theorem failures_runAll (source : Source) (c : Config.ExperimentConfig) :
    (runAll source c).failures = [] ↔ ∀ kind ∈ required c, ∃ r, outcome source c kind = .ok r := by
  rw [failures_runAll_eq, List.filterMap_eq_nil_iff]
  simp only [Option.map_eq_none_iff, failure?_eq_none]

theorem mem_reports (source : Source) (c : Config.ExperimentConfig) (r : Report) :
    r ∈ (runAll source c).reports ↔ ∃ kind ∈ required c, outcome source c kind = .ok r := by
  rw [reports_runAll, List.mem_filterMap]
  refine exists_congr fun kind => and_congr_right fun _ => ?_
  cases outcome source c kind <;> simp [Except.toOption]

/-- **An experiment fails exactly if some required check has no valid report.** -/
theorem verdict_failed (source : Source) (c : Config.ExperimentConfig) :
    (runAll source c).verdict = .failed ↔
      ∃ kind ∈ required c, ¬ ∃ r, outcome source c kind = .ok r ∧ r.isValid = true := by
  have hv : (runAll source c).verdict = .failed ↔
      (runAll source c).failures ≠ [] ∨ ∃ r ∈ (runAll source c).reports, ¬ r.isValid = true := by
    unfold ExperimentReport.verdict
    split_ifs with h1 h2 <;> simpa using h1
  rw [hv, Ne, failures_runAll]
  constructor
  · rintro (h | ⟨r, hr, hi⟩)
    · simp only [not_forall] at h
      obtain ⟨kind, hk, ho⟩ := h
      exact ⟨kind, hk, fun ⟨r, hr, _⟩ => ho ⟨r, hr⟩⟩
    · obtain ⟨kind, hk, ho⟩ := (mem_reports source c r).1 hr
      refine ⟨kind, hk, ?_⟩
      rintro ⟨r', hr', hi'⟩
      rw [ho, Except.ok.injEq] at hr'
      exact hi (hr' ▸ hi')
  · rintro ⟨kind, hk, ho⟩
    by_cases hr : ∃ r, outcome source c kind = .ok r
    · obtain ⟨r, hr⟩ := hr
      exact .inr ⟨r, (mem_reports source c r).2 ⟨kind, hk, hr⟩, fun hi => ho ⟨r, hr, hi⟩⟩
    · exact .inl fun h => hr (h kind hk)

end RunAudit
