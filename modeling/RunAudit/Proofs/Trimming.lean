import Mathlib.Data.List.DropRight
import RunAudit.Text.Pieces
import RunAudit.Text.Blank

/-!
# Blanks around texts and words

A text is unpadded if it neither starts nor ends with a blank. Taking off the blanks around a text
leaves an unpadded one, and does nothing to a text that is unpadded already. Blanks in front of a
word are skipped, and a word reaches as far as no blank does.

* `Unpadded`, `Blank`: texts without blanks around them, and texts of blanks alone.
* `trim_of_unpadded`, `unpadded_trim`, `trim_trim`: what taking off blanks does.
* `trimEnd_append_blank`, `trim_blank_append`: blanks around a text that has none.
* `word_blank_append`: the first word behind some blanks.
* `splitFirst_append`, `splitFirst_eq_some_iff`: the first separator behind items that are none.
-/

namespace RunAudit.Text

variable {s t rest blanks : List Char} {c : Char}

/-- A text of blanks alone. -/
def Blank (s : List Char) : Prop := ∀ c ∈ s, isBlank c = true

/-- A text that neither starts nor ends with a blank. -/
structure Unpadded (s : List Char) : Prop where
  head_not_blank : ∀ c ∈ s.head?, isBlank c = false
  last_not_blank : ∀ c ∈ s.getLast?, isBlank c = false

/-- No printable character of ASCII is blank. -/
theorem isBlank_eq_false_of_ascii (hlow : 33 ≤ c.toNat) (hhigh : c.toNat ≤ 126) :
    isBlank c = false := by
  simp only [isBlank, blankCodes, List.contains_eq_mem, decide_eq_false_iff_not, List.mem_cons,
    List.not_mem_nil, or_false]
  omega

/-! ### Given texts

Of a given text a test that runs through its characters decides what is said here of all characters
in it. -/

theorem not_blank_of_all (h : s.all (! isBlank ·) = true) : ∀ c ∈ s, isBlank c = false := by
  intro c hc
  simpa using List.all_eq_true.1 h c hc

theorem blank_of_all (h : s.all isBlank = true) : Blank s := List.all_eq_true.1 h

theorem unpadded_of_all (hhead : s.head?.all (! isBlank ·) = true)
    (hlast : s.getLast?.all (! isBlank ·) = true) : Unpadded s := by
  refine ⟨fun c hc => ?_, fun c hc => ?_⟩
  · simpa using (Option.all_eq_true _ _).1 hhead c hc
  · simpa using (Option.all_eq_true _ _).1 hlast c hc

/-! ### Blanks around a text -/

theorem trimStart_blank_append (hb : Blank blanks) : trimStart (blanks ++ s) = trimStart s :=
  List.dropWhile_append_of_pos hb

theorem trimStart_cons (h : isBlank c = false) : trimStart (c :: s) = c :: s :=
  List.dropWhile_cons_of_neg (by simp [h])

theorem trimStart_of_head (h : ∀ c ∈ s.head?, isBlank c = false) : trimStart s = s := by
  cases s with
  | nil => rfl
  | cons c s => exact trimStart_cons (h c rfl)

theorem head_trimStart (s : List Char) : ∀ c ∈ (trimStart s).head?, isBlank c = false := by
  intro c hc
  have hhead := List.head?_dropWhile_not isBlank s
  unfold trimStart at hc
  rw [Option.mem_def.1 hc] at hhead
  exact hhead

theorem trimEnd_of_last (h : ∀ c ∈ s.getLast?, isBlank c = false) : trimEnd s = s := by
  unfold trimEnd
  rw [trimStart_of_head (by rwa [List.head?_reverse]), List.reverse_reverse]

theorem trimEnd_append_blank (hb : Blank blanks) (h : ∀ c ∈ s.getLast?, isBlank c = false) :
    trimEnd (s ++ blanks) = s := by
  have hreverse : Blank blanks.reverse := fun c hc => hb c (List.mem_reverse.1 hc)
  have hs : trimEnd (s ++ blanks) = trimEnd s := by
    unfold trimEnd
    rw [List.reverse_append, trimStart_blank_append hreverse]
  rw [hs, trimEnd_of_last h]

theorem last_trimEnd (s : List Char) : ∀ c ∈ (trimEnd s).getLast?, isBlank c = false := by
  intro c hc
  unfold trimEnd at hc
  rw [List.getLast?_reverse] at hc
  exact head_trimStart s.reverse c hc

theorem trim_of_unpadded (h : Unpadded s) : trim s = s := by
  unfold trim
  rw [trimStart_of_head h.head_not_blank, trimEnd_of_last h.last_not_blank]

/-- Blanks in front of an unpadded text are taken off. -/
theorem trim_blank_append (hb : Blank blanks) (h : Unpadded s) : trim (blanks ++ s) = s := by
  rw [trim, trimStart_blank_append hb]
  exact trim_of_unpadded h

/-- **Taking off the blanks around a text leaves an unpadded one.** -/
theorem unpadded_trim (s : List Char) : Unpadded (trim s) := by
  refine ⟨?_, last_trimEnd _⟩
  intro c hc
  -- what is taken off the end leaves the beginning as it is
  have hprefix : trim s <+: trimStart s := List.rdropWhile_prefix isBlank (trimStart s)
  obtain ⟨tail, htail⟩ := hprefix
  refine head_trimStart s c ?_
  rw [← htail, List.head?_append, Option.mem_def.1 hc]
  rfl

@[simp] theorem trim_trim (s : List Char) : trim (trim s) = trim s :=
  trim_of_unpadded (unpadded_trim s)

/-! ### Words -/

section Stop

variable {α : Type} {p : α → Bool} {xs later : List α}

/-- What is taken from the front of a list stops at the first item that is not wanted. -/
theorem takeWhile_append_stop (h : ∀ x ∈ xs, p x = true)
    (hstop : ∀ x ∈ later.head?, p x = false) : (xs ++ later).takeWhile p = xs := by
  rw [List.takeWhile_append_of_pos h]
  cases later with
  | nil => rw [List.takeWhile_nil, List.append_nil]
  | cons x later => simp [hstop x rfl]

theorem dropWhile_append_stop (h : ∀ x ∈ xs, p x = true)
    (hstop : ∀ x ∈ later.head?, p x = false) : (xs ++ later).dropWhile p = later := by
  rw [List.dropWhile_append_of_pos h]
  cases later with
  | nil => rfl
  | cons x later => simp [hstop x rfl]

end Stop

/-- A text that is one word. -/
structure IsWord (s : List Char) : Prop where
  ne_nil : s ≠ []
  not_blank : ∀ c ∈ s, isBlank c = false

theorem IsWord.append (hs : IsWord s) (ht : ∀ c ∈ t, isBlank c = false) : IsWord (s ++ t) := by
  refine ⟨List.append_ne_nil_of_left_ne_nil hs.ne_nil t, fun c hc => ?_⟩
  rcases List.mem_append.1 hc with hc | hc
  · exact hs.not_blank c hc
  · exact ht c hc

/-- **The first word behind some blanks.** -/
theorem word_blank_append (hb : Blank blanks) (hs : IsWord s)
    (hrest : ∀ c ∈ rest.head?, isBlank c = true) :
    word (blanks ++ (s ++ rest)) = some (s, rest) := by
  have hstart : trimStart (blanks ++ (s ++ rest)) = s ++ rest := by
    rw [trimStart_blank_append hb]
    refine trimStart_of_head fun c hc => ?_
    rw [List.head?_append_of_ne_nil s hs.ne_nil] at hc
    exact hs.not_blank c (List.mem_of_mem_head? hc)
  have hstop : ∀ c ∈ rest.head?, (! isBlank c) = false := by
    intro c hc
    rw [hrest c hc]
    rfl
  have htake : (s ++ rest).takeWhile (! isBlank ·) = s :=
    takeWhile_append_stop (by simpa using hs.not_blank) hstop
  have hdrop : (s ++ rest).dropWhile (! isBlank ·) = rest :=
    dropWhile_append_stop (by simpa using hs.not_blank) hstop
  obtain ⟨c, later, hsplit⟩ : ∃ c later, s ++ rest = c :: later :=
    List.exists_cons_of_ne_nil (List.append_ne_nil_of_left_ne_nil hs.ne_nil rest)
  unfold word
  rw [hsplit] at htake hdrop
  rw [hstart, hsplit]
  exact congrArg some (Prod.ext htake hdrop)

/-- **The first separator** behind items that are none. -/
theorem splitFirst_append {α : Type} [BEq α] [LawfulBEq α] {separator : α} {before : List α}
    (h : separator ∉ before) (after : List α) :
    splitFirst separator (before ++ separator :: after) = some (before, after) := by
  induction before with
  | nil => simp [splitFirst]
  | cons x before ih =>
    rw [List.mem_cons, not_or] at h
    obtain ⟨hx, hbefore⟩ := h
    have hne : (x == separator) = false := by simpa using Ne.symm hx
    rw [List.cons_append, splitFirst, hne, ih hbefore]
    rfl

/-- The first separator comes before any other. -/
theorem splitFirst_eq_some_iff {α : Type} [BEq α] [LawfulBEq α] {separator : α}
    {xs before after : List α} :
    splitFirst separator xs = some (before, after) ↔
      separator ∉ before ∧ xs = before ++ separator :: after := by
  constructor
  · intro h
    refine ⟨?_, splitFirst_eq_some h⟩
    induction xs generalizing before with
    | nil => cases h
    | cons x xs ih =>
      rw [splitFirst] at h
      by_cases hx : (x == separator) = true
      · rw [if_pos hx] at h
        cases h
        exact List.not_mem_nil
      · rw [if_neg hx, Option.map_eq_some_iff] at h
        obtain ⟨⟨before', after'⟩, hsplit, heq⟩ := h
        cases heq
        have hne : separator ≠ x := fun h => hx (by rw [h]; exact beq_self_eq_true x)
        rw [List.mem_cons, not_or]
        exact ⟨hne, ih hsplit⟩
  · rintro ⟨hmem, rfl⟩
    exact splitFirst_append hmem after

end RunAudit.Text
