import RunAudit.Log.Entry
import RunAudit.Proofs.Instants

/-!
# Lines as they were logged

A line that was logged has an instant, a tag and a message, with any blanks around and between them.
Three words are read from the front of it, and what is behind the third is the message with the
blanks around it. Nothing of the message is taken for one of the words, and nothing is looked for in
it, so a message may itself look like a line; only a client looks for a suite in front of it.

* `trimEnd_logged`: what the end of a line is cut down to.
* `structured?_words`: three words and the rest.
* `quotedSuite?_quoted`: a suite in front of a message.
* `logged_line_reads_back`: the entry on a line that was logged.
-/

namespace RunAudit.Log

open RunAudit.Text RunAudit.Time

variable {tag gap message trail : List Char}

/-! ### Tags -/

/-- A tag of capital letters and underscores. -/
def Capitals (tag : List Char) : Prop := ∀ c ∈ tag, ('A' ≤ c ∧ c ≤ 'Z') ∨ c = '_'

theorem Capitals.not_blank (h : Capitals tag) : ∀ c ∈ tag, isBlank c = false := by
  intro c hc
  rcases h c hc with ⟨hlow, hhigh⟩ | rfl
  · have hfirst : 65 ≤ c.toNat := UInt32.le_iff_toNat_le.1 hlow
    have hlast : c.toNat ≤ 90 := UInt32.le_iff_toNat_le.1 hhigh
    exact isBlank_eq_false_of_ascii (by omega) (by omega)
  · rfl

theorem Capitals.isMarkerWord (h : Capitals tag) : isMarkerWord tag = true := by
  refine List.all_eq_true.2 fun c hc => ?_
  rcases h c hc with hupper | rfl
  · have : c.isUpper = true := decide_eq_true hupper
    rw [this, Bool.true_or]
  · rfl

/-! ### Words of a line -/

/-- The message of a line, with the blanks in front of it that are not at the end of the line. -/
def messagePart (gap message : List Char) : List Char := if message = [] then [] else gap ++ message

/-- **The end of a line** is cut down to its message, or to the tag if there is no message. -/
theorem trimEnd_logged (front : List Char) (htag : IsWord tag) (hgap : Blank gap)
    (hmessage : Unpadded message) (htrail : Blank trail) :
    trimEnd (front ++ (tag ++ (gap ++ (message ++ trail)))) =
      front ++ (tag ++ messagePart gap message) := by
  unfold messagePart
  split
  · next hempty =>
    have hblank : Blank (gap ++ trail) := List.forall_mem_append.2 ⟨hgap, htrail⟩
    have hlast : ∀ c ∈ (front ++ tag).getLast?, isBlank c = false := by
      intro c hc
      rw [List.getLast?_append_of_ne_nil _ htag.ne_nil] at hc
      exact htag.not_blank c (List.mem_of_getLast? hc)
    rw [hempty, List.nil_append, ← List.append_assoc, trimEnd_append_blank hblank hlast,
      List.append_nil]
  · next hne =>
    have hlast : ∀ c ∈ (front ++ (tag ++ (gap ++ message))).getLast?, isBlank c = false := by
      intro c hc
      rw [← List.append_assoc, ← List.append_assoc, List.getLast?_append_of_ne_nil _ hne] at hc
      exact hmessage.last_not_blank c hc
    have hsplit : front ++ (tag ++ (gap ++ (message ++ trail))) =
        front ++ (tag ++ (gap ++ message)) ++ trail := by
      simp only [List.append_assoc]
    rw [hsplit, trimEnd_append_blank htrail hlast]

theorem head_messagePart (hgap : Blank gap) (hne : message ≠ [] → gap ≠ []) :
    ∀ c ∈ (messagePart gap message).head?, isBlank c = true := by
  intro c hc
  unfold messagePart at hc
  split at hc
  · cases hc
  · next hmessage =>
    rw [List.head?_append_of_ne_nil gap (hne hmessage)] at hc
    exact hgap c (List.mem_of_mem_head? hc)

theorem trim_messagePart (hgap : Blank gap) (hmessage : Unpadded message) :
    trim (messagePart gap message) = message := by
  unfold messagePart
  split
  · next hempty =>
    rw [hempty]
    rfl
  · exact trim_blank_append hgap hmessage

/-- **Three words and the rest**: a line that starts with a date, a time of day and a tag. -/
theorem structured?_words (t : Instant) {lead gap₁ gap₂ rest : List Char} (hlead : Blank lead)
    (hgap₁ : Blank gap₁) (hne₁ : gap₁ ≠ []) (hgap₂ : Blank gap₂) (hne₂ : gap₂ ≠ [])
    (htag : IsWord tag) (hcapitals : Capitals tag) (hrest : ∀ c ∈ rest.head?, isBlank c = true) :
    structured? (lead ++ (t.date.render.toList ++ (gap₁ ++ (t.clock.render.toList ++
      (gap₂ ++ (tag ++ rest)))))) = some (t, .ofName (.ofList tag), trim rest) := by
  have hhead : ∀ {gap : List Char} (later : List Char), Blank gap → gap ≠ [] →
      ∀ c ∈ (gap ++ later).head?, isBlank c = true := by
    intro gap later hgap hne c hc
    rw [List.head?_append_of_ne_nil gap hne] at hc
    exact hgap c (List.mem_of_mem_head? hc)
  unfold structured?
  rw [word_blank_append hlead t.date.isWord_render (hhead _ hgap₁ hne₁)]
  simp only [Option.bind_eq_bind, Option.bind_some]
  rw [word_blank_append hgap₁ t.clock.isWord_render (hhead _ hgap₂ hne₂)]
  simp only [Option.bind_some]
  rw [word_blank_append hgap₂ htag hrest]
  simp only [Option.bind_some, Instant.read?_render, hcapitals.isMarkerWord, if_true]
  rfl

/-- **A suite in front of a message** reaches to the next quote. -/
theorem quotedSuite?_quoted {suite : List Char} (h : '\'' ∉ suite) (rest : List Char) :
    quotedSuite? ('\'' :: (suite ++ '\'' :: rest)) = some (suite, trim rest) := by
  simp only [quotedSuite?, splitFirst_append h, Option.map_some]

/-! ### Entries -/

theorem parse_of_structured {line : String} {t : Instant} {marker : Marker}
    (h : structured? (trimEnd line.toList) = some (t, marker, message)) :
    Entry.parse .platform line =
      some { timestamp := some t, marker, text := .ofList message } := by
  unfold Entry.parse Entry.parsePlatform
  dsimp only
  split
  · next hempty =>
    rw [hempty] at h
    cases h
  · rw [h]

/-- **Lines are read back as they were logged.** Whatever blanks stand around and between its parts,
the entry on a line that was logged has its instant, the marker that its tag spells, its message as
it stands, and nothing else. In the log of a client, a name in quotes in front of the message is
that of the suite, and the text is what stands behind it. -/
theorem logged_line_reads_back (t : Instant) {lead gap₁ gap₂ gap₃ trail tag message : String}
    (htag : tag ≠ "") (hcapitals : Capitals tag.toList) (hmessage : Unpadded message.toList)
    (hblank : ∀ s ∈ [lead, gap₁, gap₂, gap₃, trail], Blank s.toList)
    (hgap₁ : gap₁ ≠ "") (hgap₂ : gap₂ ≠ "") (hgap₃ : message ≠ "" → gap₃ ≠ "") :
    let line := lead ++ t.date.render ++ gap₁ ++ t.clock.render ++ gap₂ ++ tag ++ gap₃ ++ message
      ++ trail
    Entry.parse .platform line = some
      { timestamp := some t, marker := .ofName tag, suite := none, text := message,
        continuation := [] } ∧
    ∀ suite rest : String, '\'' ∉ suite.toList → message = "'" ++ suite ++ "'" ++ rest →
      Entry.parse .client line = some
        { timestamp := some t, marker := .ofName tag, suite := some suite, text := trimmed rest,
          continuation := [] } := by
  intro line
  have hne : ∀ {s : String}, s ≠ "" → s.toList ≠ [] := fun h => mt String.toList_eq_nil_iff.1 h
  simp only [List.forall_mem_cons] at hblank
  obtain ⟨hlead, hb₁, hb₂, hb₃, htrail, -⟩ := hblank
  have hword : IsWord tag.toList := ⟨hne htag, hcapitals.not_blank⟩
  have hcut : trimEnd line.toList = lead.toList ++ (t.date.render.toList ++ (gap₁.toList ++
      (t.clock.render.toList ++ (gap₂.toList ++
        (tag.toList ++ messagePart gap₃.toList message.toList))))) := by
    have h := trimEnd_logged (lead.toList ++ t.date.render.toList ++ gap₁.toList ++
      t.clock.render.toList ++ gap₂.toList) hword hb₃ hmessage htrail
    simpa only [line, String.toList_append, List.append_assoc] using h
  have hstructured : structured? (trimEnd line.toList) =
      some (t, .ofName tag, message.toList) := by
    have hrest : ∀ c ∈ (messagePart gap₃.toList message.toList).head?, isBlank c = true :=
      head_messagePart hb₃ fun h => hne (hgap₃ (mt String.toList_eq_nil_iff.2 h))
    rw [hcut, structured?_words t hlead hb₁ (hne hgap₁) hb₂ (hne hgap₂) hword hcapitals hrest,
      trim_messagePart hb₃ hmessage, String.ofList_toList]
  have hplatform := parse_of_structured hstructured
  rw [String.ofList_toList] at hplatform
  refine ⟨hplatform, ?_⟩
  rintro suite rest hsuite rfl
  have hquoted : ("'" ++ suite ++ "'" ++ rest).toList =
      '\'' :: (suite.toList ++ '\'' :: rest.toList) := by
    simp only [String.toList_append, List.append_assoc]
    rfl
  rw [Entry.parse_client, hplatform, Option.map_some]
  simp only [Entry.withSuite, hquoted, quotedSuite?_quoted hsuite, String.ofList_toList]
  rfl

/-- A leap second of a year before the first. -/
def leapSecond : Instant :=
  { date := ⟨-44, 12, 31, by decide, by decide, by decide⟩
    clock := ⟨23, 59, 60, 120000, by decide, by decide, by decide, by decide⟩ }

/-- A line whose message looks like a line of its own behind its suite. -/
def suiteLine : String :=
  "\t-0044-12-31 \u200323:59:60.000120\tSUITE_PASSED\u00a0 "
    ++ "'Transfers' 2024-03-01 10:15:30 STARTUP 'late' \r"

theorem logged_line_reads_back_suiteLine :
    Unpadded "'Transfers' 2024-03-01 10:15:30 STARTUP 'late'".toList ∧
    Entry.parse .platform suiteLine = some
      { timestamp := some leapSecond, marker := .suitePassed, suite := none,
        text := "'Transfers' 2024-03-01 10:15:30 STARTUP 'late'", continuation := [] } ∧
    Entry.parse .client suiteLine = some
      { timestamp := some leapSecond, marker := .suitePassed, suite := some "Transfers",
        text := "2024-03-01 10:15:30 STARTUP 'late'", continuation := [] } := by
  have hmessage : Unpadded "'Transfers' 2024-03-01 10:15:30 STARTUP 'late'".toList :=
    unpadded_of_all (by decide +kernel) (by decide +kernel)
  have hcapitals : Capitals "SUITE_PASSED".toList := by
    have hall : "SUITE_PASSED".toList.all (fun c => ('A' ≤ c ∧ c ≤ 'Z') ∨ c = '_') = true := by
      decide +kernel
    intro c hc
    exact of_decide_eq_true (List.all_eq_true.1 hall c hc)
  have hblank : ∀ s ∈ ["\t", " \u2003", "\t", "\u00a0 ", " \r"], Blank s.toList := by
    have hall : ["\t", " \u2003", "\t", "\u00a0 ", " \r"].all (·.toList.all isBlank) = true := by
      decide +kernel
    intro s hs
    exact blank_of_all (List.all_eq_true.1 hall s hs)
  have hline : "\t" ++ leapSecond.date.render ++ " \u2003" ++ leapSecond.clock.render ++ "\t"
      ++ "SUITE_PASSED" ++ "\u00a0 " ++ "'Transfers' 2024-03-01 10:15:30 STARTUP 'late'" ++ " \r"
      = suiteLine := by decide +kernel
  have hmarker : Marker.ofName "SUITE_PASSED" = .suitePassed := Marker.ofName_name .suitePassed
  obtain ⟨hplatform, hclient⟩ := logged_line_reads_back leapSecond (by decide) hcapitals hmessage
    hblank (by decide) (by decide) (by decide)
  have hsuite := hclient "Transfers" " 2024-03-01 10:15:30 STARTUP 'late'" (by decide +kernel)
    (by decide +kernel)
  rw [hline, hmarker] at hplatform hsuite
  exact ⟨hmessage, hplatform, hsuite⟩

end RunAudit.Log
