import RunAudit.Proofs.Lines
import RunAudit.Report.Basic

/-!
# Reports read back

The text of a report has a title and one section for each failure and each report, with an empty line
in front of each. No line of a section is empty, whatever its texts are, and headings and messages are
told apart by how they start and end. So everything that the text shows can be read back from it.

* `pieces_sections`: lists put together by a separator, and cut again.
* `textLines_unlines`: so it is with the lines of a text.
* `Outline`: what the text of a report shows.
* `Outline.read?_render`: an outline is read back from its text.
* `render_outline`: the text of a report is that of its outline.
* `rendering_loses_nothing`: reports with the same text show the same.
-/

namespace RunAudit

/-! ### Pieces -/

namespace Text

variable {α : Type} [BEq α] [LawfulBEq α] {separator : α}

/-- A separator closes the piece in front of it. -/
theorem pieces_closed {word : List α} (hw : separator ∉ word) (xs : List α) :
    pieces separator (word ++ separator :: xs) = word :: pieces separator xs := by
  have hempty : pieces separator (separator :: xs) = [] :: pieces separator xs := by
    rw [pieces, if_pos (beq_self_eq_true _)]
  rcases eq_or_ne word [] with rfl | hne
  · exact hempty
  · rw [Log.pieces_append hw hne, hempty]
    simp

/-- **Lists put together by a separator are cut there again**, if none has it and none is empty. -/
theorem pieces_sections {first : List α} {later : List (List α)}
    (h : ∀ part ∈ first :: later, separator ∉ part ∧ part ≠ []) :
    pieces separator (first ++ later.flatMap (separator :: ·)) = first :: later := by
  induction later generalizing first with
  | nil =>
    obtain ⟨hfirst, hne⟩ := h first List.mem_cons_self
    rw [List.flatMap_nil, Log.pieces_append hfirst hne, pieces_nil]
  | cons part later ih =>
    obtain ⟨hfirst, -⟩ := h first List.mem_cons_self
    rw [List.flatMap_cons, List.cons_append, pieces_closed hfirst,
      ih fun part hp => h part (List.mem_cons_of_mem _ hp)]

end Text

/-! ### Lines -/

namespace Outline

open Text

/-- A text that does not break the line. -/
def OneLine (s : String) : Prop := '\n' ∉ s.toList

instance (s : String) : Decidable (OneLine s) := inferInstanceAs (Decidable (_ ∉ _))

@[simp] theorem oneLine_append (s t : String) : OneLine (s ++ t) ↔ OneLine s ∧ OneLine t := by
  simp [OneLine]

/-- A line with something on it. -/
def Written (line : String) : Prop := OneLine line ∧ line ≠ ""

instance (line : String) : Decidable (Written line) := inferInstanceAs (Decidable (_ ∧ _))

theorem Written.append {start rest : String} (h : Written start) (hr : OneLine rest) :
    Written (start ++ rest) :=
  ⟨(oneLine_append start rest).2 ⟨h.1, hr⟩, by simp [h.2]⟩

/-- Lines put together, each with its line break. -/
def unlines (lines : List String) : String := String.join (lines.map (· ++ "\n"))

/-- The lines of a text. -/
def textLines (text : String) : List String := (pieces '\n' text.toList).map String.ofList

@[simp] theorem unlines_nil : unlines [] = "" := rfl

@[simp] theorem unlines_cons (line : String) (lines : List String) :
    unlines (line :: lines) = line ++ "\n" ++ unlines lines := by
  simp [unlines]

@[simp] theorem unlines_append (lines more : List String) :
    unlines (lines ++ more) = unlines lines ++ unlines more := by
  simp [unlines]

/-- **A text has the lines that it was put together from.** -/
theorem textLines_unlines {lines : List String} (h : ∀ line ∈ lines, OneLine line) :
    textLines (unlines lines) = lines := by
  induction lines with
  | nil => rfl
  | cons line lines ih =>
    rw [List.forall_mem_cons] at h
    have htext : (unlines (line :: lines)).toList =
        line.toList ++ '\n' :: (unlines lines).toList := by simp
    rw [textLines, htext, pieces_closed h.1, List.map_cons, String.ofList_toList, ← textLines,
      ih h.2]

/-! ### Starts and ends of lines -/

/-- What is behind the start of a line. -/
def behind? (start line : String) : Option String :=
  (line.toList.dropPrefix? start.toList).map String.ofList

/-- What is in front of the end of a line. -/
def before? (ending line : String) : Option String :=
  (line.toList.dropSuffix? ending.toList).map String.ofList

@[simp] theorem behind?_append (start rest : String) :
    behind? start (start ++ rest) = some rest := by
  rw [behind?, String.toList_append, List.dropPrefix?_append_of_beq _ (beq_self_eq_true _)]
  simp

/-- A line starts in one way only, if neither of two starts goes on to be the other. -/
theorem behind?_eq_none {start other : String} (h : ¬ start.toList <+: other.toList)
    (h' : ¬ other.toList <+: start.toList) (rest : String) :
    behind? start (other ++ rest) = none := by
  rw [behind?, Option.map_eq_none_iff, Option.eq_none_iff_forall_ne_some]
  intro found hfound
  obtain ⟨start', hline, hstart⟩ := List.dropPrefix?_eq_some_iff.1 hfound
  rw [String.toList_append, eq_of_beq hstart] at hline
  exact (List.prefix_or_prefix_of_prefix ⟨found, hline.symm⟩ ⟨rest.toList, rfl⟩).elim h h'

@[simp] theorem before?_append (front ending : String) :
    before? ending (front ++ ending) = some front := by
  have hdrop : (front ++ ending).toList.dropSuffix? ending.toList = some front.toList :=
    List.dropSuffix?_eq_some_iff.2 ⟨ending.toList, String.toList_append, beq_self_eq_true _⟩
  rw [before?, hdrop]
  simp

/-- A line ends in one way only, if neither of two ends is the end of the other. -/
theorem before?_eq_none {ending other : String} (h : ¬ ending.toList <:+ other.toList)
    (h' : ¬ other.toList <:+ ending.toList) (front : String) :
    before? ending (front ++ other) = none := by
  rw [before?, Option.map_eq_none_iff, Option.eq_none_iff_forall_ne_some]
  intro found hfound
  obtain ⟨ending', hline, hending⟩ := List.dropSuffix?_eq_some_iff.1 hfound
  rw [String.toList_append, eq_of_beq hending] at hline
  exact (List.suffix_or_suffix_of_suffix ⟨found, hline.symm⟩ ⟨front.toList, rfl⟩).elim h h'

/-! ### Messages -/

/-- The kinds of messages in a section. -/
inductive Label where
  | exception
  | error
  | warning
  | info
  deriving DecidableEq

/-- What a message of a kind starts with. -/
def Label.text : Label → String
  | exception => "EXCEPTION: "
  | error => "ERROR: "
  | warning => "WARNING: "
  | info => "INFO: "

/-- The line of a message has something on it, even if the message has nothing. -/
theorem Label.written_message (label : Label) {message : String} (h : OneLine message) :
    Written (label.text ++ message) := by
  refine Written.append ?_ h
  cases label <;> decide +kernel

/-- **A message is read with its own label only**, whatever it looks like itself. -/
theorem behind?_text (label wanted : Label) (message : String) :
    behind? wanted.text (label.text ++ message) = if label = wanted then some message else none := by
  rcases eq_or_ne label wanted with rfl | hne
  · rw [if_pos rfl, behind?_append]
  · have hstarts : ∀ a b : Label, a ≠ b → ¬ a.text.toList <+: b.text.toList := by
      intro a b hab
      cases a <;> cases b <;> first | exact absurd rfl hab | decide +kernel
    rw [if_neg hne, behind?_eq_none (hstarts _ _ hne.symm) (hstarts _ _ hne)]

/-- Messages of one kind, each on its line. -/
def messageLines (label : Label) (messages : List String) : List String :=
  messages.map (label.text ++ ·)

/-- The messages of one kind. -/
def messagesIn (wanted : Label) (lines : List String) : List String :=
  lines.filterMap (behind? wanted.text)

@[simp] theorem messagesIn_append (wanted : Label) (lines more : List String) :
    messagesIn wanted (lines ++ more) = messagesIn wanted lines ++ messagesIn wanted more :=
  List.filterMap_append

@[simp] theorem messagesIn_messageLines (label wanted : Label) (messages : List String) :
    messagesIn wanted (messageLines label messages) = if label = wanted then messages else [] := by
  unfold messagesIn messageLines
  rw [List.filterMap_map]
  have hread : (behind? wanted.text ∘ fun message => label.text ++ message) =
      fun message => if label = wanted then some message else none :=
    funext (behind?_text label wanted)
  rw [hread]
  split
  · exact List.filterMap_some
  · exact List.filterMap_none messages

theorem written_messageLines (label : Label) {messages : List String}
    (h : ∀ message ∈ messages, OneLine message) :
    ∀ line ∈ messageLines label messages, Written line :=
  List.forall_mem_map.2 fun message hm => label.written_message (h message hm)

/-! ### Headings -/

/-- What a section is about. -/
inductive Status where
  | exception
  | valid
  | invalid
  deriving DecidableEq

/-- The status of a report. -/
def Status.ofReport : Bool → Status
  | true => .valid
  | false => .invalid

/-- The end of the heading of a section. -/
def Status.ending : Status → String
  | exception => ": exception =="
  | valid => ": valid =="
  | invalid => ": invalid =="

/-- The heading of a section. -/
def heading (validator : String) (status : Status) : String :=
  "== " ++ (validator ++ status.ending)

/-- The validator and the status that a heading names. -/
def heading? (line : String) : Option (String × Status) :=
  (behind? "== " line).bind fun rest =>
    [Status.exception, .valid, .invalid].findSome? fun status =>
      (before? status.ending rest).map (·, status)

theorem before?_ending (status wanted : Status) (validator : String) :
    before? wanted.ending (validator ++ status.ending) =
      if status = wanted then some validator else none := by
  rcases eq_or_ne status wanted with rfl | hne
  · rw [if_pos rfl, before?_append]
  · have hends : ∀ a b : Status, a ≠ b → ¬ a.ending.toList <:+ b.ending.toList := by
      intro a b hab
      cases a <;> cases b <;> first | exact absurd rfl hab | decide +kernel
    rw [if_neg hne, before?_eq_none (hends _ _ hne.symm) (hends _ _ hne)]

/-- **A heading names one validator and one status**, even if the name looks like a heading. -/
@[simp] theorem heading?_heading (validator : String) (status : Status) :
    heading? (heading validator status) = some (validator, status) := by
  unfold heading? heading
  rw [behind?_append]
  cases status <;> simp [before?_ending]

theorem written_heading {validator : String} (h : OneLine validator) (status : Status) :
    Written (heading validator status) := by
  refine Written.append (by decide +kernel) ((oneLine_append _ _).2 ⟨h, ?_⟩)
  cases status <;> decide +kernel

/-! ### Sections -/

/-- What the text of a report on an experiment shows of the report of one validator. -/
structure Summary where
  validator : String
  valid : Bool
  errors : List String
  warnings : List String
  infos : List String
  deriving DecidableEq

/-- The section on a failure. -/
def failureLines (validator text : String) : List String :=
  [heading validator .exception, Label.exception.text ++ text]

/-- The section on a report. -/
def Summary.lines (r : Summary) : List String :=
  heading r.validator (.ofReport r.valid) ::
    (messageLines .error r.errors ++ messageLines .warning r.warnings
      ++ messageLines .info r.infos)

theorem written_failureLines {validator text : String} (hv : OneLine validator)
    (ht : OneLine text) : ∀ line ∈ failureLines validator text, Written line := by
  rw [failureLines, List.forall_mem_cons, List.forall_mem_singleton]
  exact ⟨written_heading hv _, Label.exception.written_message ht⟩

theorem Summary.written_lines {r : Summary}
    (h : ∀ s ∈ r.validator :: (r.errors ++ r.warnings ++ r.infos), OneLine s) :
    ∀ line ∈ r.lines, Written line := by
  simp only [Summary.lines, List.forall_mem_cons, List.forall_mem_append] at h ⊢
  obtain ⟨hv, ⟨he, hw⟩, hi⟩ := h
  exact ⟨written_heading hv _,
    ⟨written_messageLines _ he, written_messageLines _ hw⟩, written_messageLines _ hi⟩

/-- The failure that a section is about. -/
def readFailure? : List String → Option (String × String)
  | [head, line] =>
    match heading? head with
    | some (validator, .exception) => (behind? Label.exception.text line).map (validator, ·)
    | _ => none
  | _ => none

/-- The report that a section is about. -/
def readSummary? : List String → Option Summary
  | [] => none
  | head :: body =>
    match heading? head with
    | none | some (_, .exception) => none
    | some (validator, status) =>
      some
        { validator
          valid := status = .valid
          errors := messagesIn .error body
          warnings := messagesIn .warning body
          infos := messagesIn .info body }

@[simp] theorem readFailure?_failureLines (validator text : String) :
    readFailure? (failureLines validator text) = some (validator, text) := by
  simp [readFailure?, failureLines]

@[simp] theorem readSummary?_failureLines (validator text : String) :
    readSummary? (failureLines validator text) = none := by
  simp [readSummary?, failureLines]

@[simp] theorem readFailure?_lines (r : Summary) : readFailure? r.lines = none := by
  unfold readFailure? Summary.lines
  split
  · next head line heq =>
    obtain ⟨rfl, -⟩ := List.cons.inj heq
    cases r.valid <;> simp [Status.ofReport]
  · rfl

@[simp] theorem readSummary?_lines (r : Summary) : readSummary? r.lines = some r := by
  obtain ⟨validator, valid, errors, warnings, infos⟩ := r
  cases valid <;> simp [readSummary?, Summary.lines, Status.ofReport]

/-! ### Titles -/

/-- The title. -/
def titleLine (verdict : Verdict) : String := "Experiment " ++ verdict.render

/-- The verdict in the title. -/
def readVerdict? (line : String) : Option Verdict :=
  (behind? "Experiment " line).bind fun rest =>
    [Verdict.passed, .passedWithWarnings, .failed].find? (·.render = rest)

theorem written_titleLine (verdict : Verdict) : Written (titleLine verdict) := by
  cases verdict <;> decide +kernel

@[simp] theorem readVerdict?_titleLine (verdict : Verdict) :
    readVerdict? (titleLine verdict) = some verdict := by
  rw [readVerdict?, titleLine, behind?_append]
  cases verdict <;> rfl

end Outline

/-! ### Outlines -/

/-- What the text of a report on an experiment shows. -/
structure Outline where
  verdict : Verdict
  /-- The names of the validators that could not run, with the wordings of their failures. -/
  failures : List (String × String)
  reports : List Outline.Summary
  deriving DecidableEq

namespace Outline

open Text

variable {o : Outline}

/-- The sections. -/
def sections (o : Outline) : List (List String) :=
  o.failures.map (fun (validator, text) => failureLines validator text)
    ++ o.reports.map Summary.lines

/-- The whole text. -/
def render (o : Outline) : String :=
  unlines (titleLine o.verdict :: o.sections.flatMap ("" :: ·))

/-- The outline that a text shows. -/
def read? (text : String) : Option Outline :=
  match pieces "" (textLines text) with
  | [title] :: sections => (readVerdict? title).map fun verdict =>
    { verdict
      failures := sections.filterMap readFailure?
      reports := sections.filterMap readSummary? }
  | _ => none

/-- All names, messages and wordings. -/
def texts (o : Outline) : List String :=
  o.failures.flatMap (fun (validator, text) => [validator, text])
    ++ o.reports.flatMap fun r => r.validator :: (r.errors ++ r.warnings ++ r.infos)

/-- Every line of a section has something on it. -/
theorem written_sections (h : ∀ s ∈ o.texts, OneLine s) {lines : List String}
    (hl : lines ∈ o.sections) : ∀ line ∈ lines, Written line := by
  obtain ⟨hfailures, hreports⟩ := List.forall_mem_append.1 h
  rcases List.mem_append.1 hl with hl | hl
  · obtain ⟨⟨validator, text⟩, hf, rfl⟩ := List.mem_map.1 hl
    have hone : ∀ s ∈ [validator, text], OneLine s :=
      fun s hs => hfailures s (List.mem_flatMap.2 ⟨_, hf, hs⟩)
    exact written_failureLines (hone _ (by simp)) (hone _ (by simp))
  · obtain ⟨r, hr, rfl⟩ := List.mem_map.1 hl
    exact Summary.written_lines fun s hs => hreports s (List.mem_flatMap.2 ⟨r, hr, hs⟩)

/-- No section is without a heading. -/
theorem ne_nil_of_mem_sections {lines : List String} (hl : lines ∈ o.sections) : lines ≠ [] := by
  rcases List.mem_append.1 hl with hl | hl
  · obtain ⟨f, -, rfl⟩ := List.mem_map.1 hl
    exact List.cons_ne_nil _ _
  · obtain ⟨r, -, rfl⟩ := List.mem_map.1 hl
    exact List.cons_ne_nil _ _

/-- The text falls into its title and its sections. -/
theorem pieces_render (h : ∀ s ∈ o.texts, OneLine s) :
    pieces "" (textLines o.render) = [titleLine o.verdict] :: o.sections := by
  have hlines : ∀ line ∈ titleLine o.verdict :: o.sections.flatMap ("" :: ·), OneLine line := by
    refine List.forall_mem_cons.2 ⟨(written_titleLine _).1, fun line hline => ?_⟩
    obtain ⟨lines, hl, hline⟩ := List.mem_flatMap.1 hline
    rcases List.mem_cons.1 hline with rfl | hline
    · decide +kernel
    · exact (written_sections h hl line hline).1
  rw [render, textLines_unlines hlines, ← List.singleton_append]
  refine pieces_sections fun lines hl => ?_
  rcases List.mem_cons.1 hl with rfl | hl
  · exact ⟨fun hmem => (written_titleLine _).2 (List.mem_singleton.1 hmem).symm,
      List.cons_ne_nil _ _⟩
  · exact ⟨fun hmem => (written_sections h hl _ hmem).2 rfl, ne_nil_of_mem_sections hl⟩

/-- **An outline is read back from its text.** -/
theorem read?_render (h : ∀ s ∈ o.texts, OneLine s) : read? o.render = some o := by
  have hfailures : o.sections.filterMap readFailure? = o.failures := by
    simp [sections, List.filterMap_map]
  have hreports : o.sections.filterMap readSummary? = o.reports := by
    simp [sections, List.filterMap_map]
  rw [read?, pieces_render h]
  simp only [readVerdict?_titleLine, Option.map_some, hfailures, hreports]

example :
    read? "Experiment PASSED\n\n== A: valid: valid ==\nINFO: \nINFO: ERROR: b\n" =
      some ⟨.passed, [], [⟨"A: valid", true, [], [], ["", "ERROR: b"]⟩]⟩ := by
  decide +kernel

end Outline

/-! ### Reports -/

open Outline

/-- What the text of a report shows of it: not whether an invalid report is complete. -/
def Report.summary (r : Report) : Summary :=
  { validator := r.validator
    valid := r.isValid
    errors := r.errors
    warnings := r.warnings
    infos := r.infos }

/-- What the text of a report on an experiment shows of it: of a failure only its wording. -/
def ExperimentReport.outline (x : ExperimentReport) : Outline :=
  { verdict := x.verdict
    failures := x.failures.map fun (validator, failure) => (validator, failure.message)
    reports := x.reports.map Report.summary }

theorem unlines_flatMap {α : Type} (f : α → List String) (as : List α) :
    unlines (as.flatMap f) = String.join (as.map fun a => unlines (f a)) := by
  induction as with
  | nil => rfl
  | cons a as ih => simp [ih]

theorem unlines_messageLines (label : Label) (messages : List String) :
    unlines (messageLines label messages) =
      String.join (messages.map fun m => label.text ++ m ++ "\n") := by
  simp [unlines, messageLines, Function.comp_def]

theorem unlines_section (validator : String) (status : Status) (body : List String) :
    unlines ("" :: heading validator status :: body) =
      "\n== " ++ validator ++ status.ending ++ "\n" ++ unlines body := by
  rw [← String.toList_inj]
  simp [heading]

theorem render_failureLines (validator : String) (failure : Failure) :
    unlines ("" :: failureLines validator failure.message) =
      ExperimentReport.renderFailure validator failure := by
  rw [failureLines, unlines_section, ExperimentReport.renderFailure, ← String.toList_inj]
  simp [Status.ending, Label.text]

theorem render_summary (r : Report) : unlines ("" :: r.summary.lines) = r.render := by
  have hending : (Status.ofReport r.isValid).ending =
      ": " ++ (if r.isValid then "valid" else "invalid") ++ " ==" := by
    cases r.isValid <;> rfl
  rw [Summary.lines, unlines_section, unlines_append, unlines_append]
  simp only [unlines_messageLines, Report.render, Report.summary, Label.text, hending]
  rw [← String.toList_inj]
  simp

/-- **The text of a report is that of its outline.** -/
theorem render_outline (x : ExperimentReport) : x.outline.render = x.render := by
  rw [Outline.render, unlines_cons, unlines_flatMap, Outline.sections, List.map_append,
    String.join_append, ExperimentReport.render]
  simp only [ExperimentReport.outline, List.map_map, Function.comp_def, render_failureLines,
    render_summary, titleLine, String.append_assoc]

/-- **The text of a report loses nothing** that it is made of. -/
theorem rendering_loses_nothing {x y : ExperimentReport}
    (hx : ∀ s ∈ x.outline.texts, OneLine s) (hy : ∀ s ∈ y.outline.texts, OneLine s)
    (h : x.render = y.render) :
    x.verdict = y.verdict ∧
      x.failures.map (fun (validator, failure) => (validator, failure.message)) =
        y.failures.map (fun (validator, failure) => (validator, failure.message)) ∧
      x.reports.map (fun r => (r.validator, r.isValid, r.errors, r.warnings, r.infos)) =
        y.reports.map (fun r => (r.validator, r.isValid, r.errors, r.warnings, r.infos)) := by
  have houtline : x.outline = y.outline := by
    rw [← render_outline, ← render_outline] at h
    exact Option.some.inj ((Outline.read?_render hx).symm.trans (h ▸ Outline.read?_render hy))
  have hreports : ∀ z : ExperimentReport,
      z.reports.map (fun r => (r.validator, r.isValid, r.errors, r.warnings, r.infos)) =
        z.outline.reports.map fun r => (r.validator, r.valid, r.errors, r.warnings, r.infos) :=
    fun z => by simp [ExperimentReport.outline, Report.summary]
  refine ⟨congrArg Outline.verdict houtline, congrArg Outline.failures houtline, ?_⟩
  rw [hreports, hreports, houtline]

/-- Reports whose texts imitate headings and messages. They differ in what no text shows: who says why
a file could not be read, and whether a report with errors is complete. -/
def misleading (complete : Bool) : ExperimentReport :=
  { failures :=
      [("A: exception ==", .metrics { text := "== B: valid ==", behind := some "\n" }),
       ("EXCEPTION: ", .appConfig { text := "" }),
       ("A", .unreadable
          (if complete then .folder else .other { text := "Is a directory (os error 21)" }))]
    reports :=
      [{ validator := "== B: invalid"
         errors := ["", "INFO: c"]
         infos := ["ERROR: "]
         validated := complete }] }

theorem misleading_loses_nothing :
    misleading true ≠ misleading false ∧
      (∀ complete, ∀ s ∈ (misleading complete).outline.texts, OneLine s) ∧
      (misleading true).render = (misleading false).render ∧
      (misleading true).failures ≠ (misleading false).failures ∧
      (misleading true).failures.map (fun (validator, failure) => (validator, failure.message)) =
        (misleading false).failures.map (fun (validator, failure) =>
          (validator, failure.message)) ∧
      (misleading true).reports.map (fun r =>
          (r.validator, r.isValid, r.errors, r.warnings, r.infos)) =
        (misleading false).reports.map fun r =>
          (r.validator, r.isValid, r.errors, r.warnings, r.infos) := by
  have htexts : ∀ complete, ∀ s ∈ (misleading complete).outline.texts, OneLine s := by
    decide +kernel
  have hrender : (misleading true).render = (misleading false).render := by decide +kernel
  obtain ⟨-, hfailures, hreports⟩ :=
    rendering_loses_nothing (htexts true) (htexts false) hrender
  exact ⟨by decide, htexts, hrender, by decide, hfailures, hreports⟩

end RunAudit
