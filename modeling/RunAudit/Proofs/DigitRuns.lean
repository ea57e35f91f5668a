import RunAudit.Decimal.Digits
import RunAudit.Proofs.Trimming

/-!
# The number that ends a text

A text with a digit in it is cut around its last run of digits in one way only. The scan that looks
for the number goes back from the last digit and knows the byte at which each character starts. It
stops at the start of the run, which is the boundary of a character whatever stands before it, and
what is cut off there is the run. The digits are then read one by one, until the number leaves 64
bits; since more digits never make a number smaller, that happens exactly if the run does not fit.

* `Cut`, `LastRun`: a text cut around its last run of digits.
* `natural64?_digits`: what a run of digits is read as, leading zeros or not.
* `digitsStart?_append`: the scan stops at the byte where the run starts.
* `LastRun.upToDigit_eq`, `LastRun.digitsStart?_eq`, `LastRun.textFrom?_eq`: the stages of the scan.
* `LastRun.unique`, `lastRun_cutFromEnd`: there is one cut, and it is found from the end.
* `last_run_read`: the number read is that of the last run.
-/

namespace RunAudit.Decimal

open RunAudit.Text

/-- A text in three parts, the middle one to be a run of digits. -/
@[ext] structure Cut where
  front : String
  digits : String
  back : String

/-- **A text cut around its last run of digits.** Digits are those of ASCII. -/
structure LastRun (text : String) (cut : Cut) : Prop where
  text_eq : text = cut.front ++ cut.digits ++ cut.back
  ne_nil : cut.digits.toList ≠ []
  isDigit : ∀ c ∈ cut.digits.toList, c.isDigit = true
  /-- The run does not go on to the left. -/
  front_stops : ∀ c ∈ cut.front.toList.getLast?, c.isDigit = false
  /-- No other run follows. -/
  back_free : ∀ c ∈ cut.back.toList, c.isDigit = false

variable {text : String} {cut cut' : Cut} {n : Nat} {digits : List Char}

/-! ### Reading digits in 64 bits -/

/-- More digits never make a number smaller. -/
theorem le_ofDigitChars (n : Nat) (digits : List Char) : n ≤ Nat.ofDigitChars 10 digits n := by
  have hpos : 1 ≤ 10 ^ digits.length := Nat.one_le_pow _ _ (by decide)
  rw [Nat.ofDigitChars_eq_ofDigitChars_zero]
  exact (Nat.le_mul_of_pos_left n hpos).trans (Nat.le_add_right _ _)

/-- Digits are read up to the last one if the number that they carry on fits in the end: if it
leaves 64 bits on the way, it does not come back. -/
theorem carryOn?_digits (h : ∀ c ∈ digits, c.isDigit = true) (hn : n < UInt64.size) :
    carryOn? n digits =
      if Nat.ofDigitChars 10 digits n < UInt64.size then some (Nat.ofDigitChars 10 digits n)
      else none := by
  induction digits generalizing n with
  | nil => exact (if_pos hn).symm
  | cons c rest ih =>
    obtain ⟨hc, hrest⟩ := List.forall_mem_cons.1 h
    have hcons : Nat.ofDigitChars 10 (c :: rest) n =
        Nat.ofDigitChars 10 rest (10 * n + digitValue c) := rfl
    rw [hcons, carryOn?]
    by_cases hlonger : 10 * n + digitValue c < UInt64.size
    · rw [if_pos ⟨hc, hlonger⟩, ih hrest hlonger]
    · have hover : ¬ Nat.ofDigitChars 10 rest (10 * n + digitValue c) < UInt64.size := fun hlt =>
        hlonger (Nat.lt_of_le_of_lt (le_ofDigitChars _ rest) hlt)
      rw [if_neg (fun hboth => hlonger hboth.2), if_neg hover]

theorem dropPlus_digits (h : ∀ c ∈ digits, c.isDigit = true) : dropPlus digits = digits := by
  unfold dropPlus
  split
  · next rest =>
    have hplus : '+'.isDigit = true := h '+' List.mem_cons_self
    exact absurd hplus (by decide)
  · rfl

/-- **A run of digits is read as the number it spells**, if that has 64 bits. -/
theorem natural64?_digits (hne : digits ≠ []) (h : ∀ c ∈ digits, c.isDigit = true) :
    natural64? digits = if value digits < UInt64.size then some (value digits) else none := by
  have hempty : ¬ digits.isEmpty = true := by rwa [List.isEmpty_iff]
  rw [natural64?, dropPlus_digits h, if_neg hempty]
  exact carryOn?_digits h (by decide)

/-! ### Going back from the end -/

/-- The scan is over the characters of the text. -/
theorem snd_mem_of_mem_charOffsets {start : String.Pos.Raw} {s : List Char}
    {x : String.Pos.Raw × Char} (h : x ∈ charOffsets start s) : x.2 ∈ s := by
  have hmap : x.2 ∈ (charOffsets start s).map (·.2) := List.mem_map_of_mem h
  rwa [map_snd_charOffsets] at hmap

/-- **The scan stops at the byte where the digits start**, which is where the text before them
ends. -/
theorem digitsStart?_append {front digits : String} (hne : digits.toList ≠ [])
    (h : ∀ c ∈ digits.toList, c.isDigit = true)
    (hfront : ∀ c ∈ front.toList.getLast?, c.isDigit = false) :
    digitsStart? (front ++ digits) = some front.rawEndPos := by
  have hstart : (0 : String.Pos.Raw) + String.ofList front.toList = front.rawEndPos := by
    simp [String.Pos.Raw.ext_iff]
  have hoffsets : charOffsets 0 (front ++ digits).toList =
      charOffsets 0 front.toList ++ charOffsets front.rawEndPos digits.toList := by
    rw [String.toList_append, charOffsets_append, hstart]
  have hdigits : ∀ x ∈ (charOffsets front.rawEndPos digits.toList).reverse,
      x.2.isDigit = true := fun x hx =>
    h x.2 (snd_mem_of_mem_charOffsets (List.mem_reverse.1 hx))
  have hstop : ∀ x ∈ (charOffsets 0 front.toList).reverse.head?, x.2.isDigit = false := by
    intro x hx
    refine hfront x.2 ?_
    rw [List.head?_reverse] at hx
    rw [← map_snd_charOffsets 0 front.toList, List.getLast?_map, Option.mem_def.1 hx]
    rfl
  have htake : (charOffsets 0 (front ++ digits).toList).reverse.takeWhile (·.2.isDigit) =
      (charOffsets front.rawEndPos digits.toList).reverse := by
    rw [hoffsets, List.reverse_append]
    exact takeWhile_append_stop hdigits hstop
  obtain ⟨c, rest, hcons⟩ := List.exists_cons_of_ne_nil hne
  rw [digitsStart?, htake, hcons, List.getLast?_reverse]
  rfl

namespace LastRun

/-- What follows the run is dropped. -/
theorem upToDigit_eq (h : LastRun text cut) : upToDigit text = cut.front ++ cut.digits := by
  have hback : ∀ c ∈ cut.back.toList.reverse, (! c.isDigit) = true := by
    intro c hc
    rw [h.back_free c (List.mem_reverse.1 hc)]
    rfl
  have hstop : ∀ c ∈ (cut.front ++ cut.digits).toList.reverse.head?, (! c.isDigit) = false := by
    intro c hc
    rw [List.head?_reverse, String.toList_append, List.getLast?_append_of_ne_nil _ h.ne_nil] at hc
    rw [h.isDigit c (List.mem_of_getLast? hc)]
    rfl
  have hdrop : text.toList.reverse.dropWhile (! ·.isDigit) =
      (cut.front ++ cut.digits).toList.reverse := by
    rw [h.text_eq, String.toList_append, List.reverse_append]
    exact dropWhile_append_stop hback hstop
  rw [upToDigit, hdrop, List.reverse_reverse, String.ofList_toList]

theorem digitsStart?_eq (h : LastRun text cut) :
    digitsStart? (upToDigit text) = some cut.front.rawEndPos := by
  rw [h.upToDigit_eq]
  exact digitsStart?_append h.ne_nil h.isDigit h.front_stops

/-- What is cut off at the byte that is found is the run. -/
theorem textFrom?_eq (h : LastRun text cut) :
    textFrom? (upToDigit text) cut.front.rawEndPos = some cut.digits := by
  rw [h.upToDigit_eq]
  exact textFrom?_append cut.front cut.digits

theorem trailing?_eq (h : LastRun text cut) :
    trailing? text = natural64? cut.digits.toList := by
  rw [trailing?, h.digitsStart?_eq, Option.bind_eq_bind, Option.bind_some, h.textFrom?_eq]
  rfl

/-- **There is one cut at most**: the scan finds the run of any. -/
theorem unique (h : LastRun text cut) (h' : LastRun text cut') : cut = cut' := by
  -- the scan goes by the text alone, so it finds the same start and the same run for both cuts
  have hstart : cut.front.rawEndPos = cut'.front.rawEndPos := by
    rw [← Option.some_inj, ← h.digitsStart?_eq, h'.digitsStart?_eq]
  have hdigits : cut.digits = cut'.digits := by
    rw [← Option.some_inj, ← h.textFrom?_eq, hstart, h'.textFrom?_eq]
  have hfront : cut.front = cut'.front := by
    rw [← String.append_left_inj cut.digits, ← h.upToDigit_eq, h'.upToDigit_eq, hdigits]
  have hback : cut.back = cut'.back := by
    rw [← String.append_right_inj (cut.front ++ cut.digits), ← h.text_eq, h'.text_eq, hfront,
      hdigits]
  exact Cut.ext hfront hdigits hback

end LastRun

/-! ### The cut -/

/-- The cut of a text, found from its end: first what is no digit, then digits, then the rest. -/
def cutFromEnd (text : String) : Cut :=
  let upTo := text.toList.reverse.dropWhile (! ·.isDigit)
  { front := .ofList (upTo.dropWhile (·.isDigit)).reverse
    digits := .ofList (upTo.takeWhile (·.isDigit)).reverse
    back := .ofList (text.toList.reverse.takeWhile (! ·.isDigit)).reverse }

/-- What is no digit is left out up to a digit, if there is one. -/
theorem exists_cons_of_digit {s : List Char} (h : ∃ c ∈ s, c.isDigit = true) :
    ∃ d later, s.dropWhile (! ·.isDigit) = d :: later ∧ d.isDigit = true := by
  obtain ⟨c, hc, hdigit⟩ := h
  have hne : s.dropWhile (! ·.isDigit) ≠ [] := by
    intro hnil
    have hnot := List.dropWhile_eq_nil_iff.1 hnil c hc
    rw [hdigit] at hnot
    cases hnot
  obtain ⟨d, later, hcons⟩ := List.exists_cons_of_ne_nil hne
  have hhead := List.head?_dropWhile_not (! ·.isDigit) s
  rw [hcons] at hhead
  exact ⟨d, later, hcons, by simpa using hhead⟩

/-- **A text with a digit has a last run.** -/
theorem lastRun_cutFromEnd (h : ∃ c ∈ text.toList, c.isDigit = true) :
    LastRun text (cutFromEnd text) := by
  obtain ⟨d, later, hcons, hd⟩ :=
    exists_cons_of_digit (s := text.toList.reverse) (by simpa only [List.mem_reverse] using h)
  refine ⟨?text_eq, ?ne_nil, ?isDigit, ?front_stops, ?back_free⟩
  case text_eq =>
    rw [← String.toList_inj]
    simp only [cutFromEnd, String.toList_append, String.toList_ofList]
    rw [← List.reverse_append, List.takeWhile_append_dropWhile, ← List.reverse_append,
      List.takeWhile_append_dropWhile, List.reverse_reverse]
  case ne_nil =>
    rw [cutFromEnd, String.toList_ofList, Ne, List.reverse_eq_nil_iff, hcons,
      List.takeWhile_cons_of_pos hd]
    exact List.cons_ne_nil _ _
  case isDigit =>
    intro c hc
    rw [cutFromEnd, String.toList_ofList, List.mem_reverse] at hc
    exact List.mem_takeWhile_imp hc
  case front_stops =>
    intro c hc
    rw [cutFromEnd, String.toList_ofList, List.getLast?_reverse] at hc
    have hhead := List.head?_dropWhile_not (·.isDigit) (text.toList.reverse.dropWhile (! ·.isDigit))
    rw [Option.mem_def.1 hc] at hhead
    exact hhead
  case back_free =>
    intro c hc
    rw [cutFromEnd, String.toList_ofList, List.mem_reverse] at hc
    simpa using List.mem_takeWhile_imp hc

/-- A text without a digit is dropped as a whole. -/
theorem digitsStart?_of_no_digit (h : ∀ c ∈ text.toList, c.isDigit = false) :
    digitsStart? (upToDigit text) = none := by
  have hdrop : text.toList.reverse.dropWhile (! ·.isDigit) = [] := by
    rw [List.dropWhile_eq_nil_iff]
    intro c hc
    rw [h c (List.mem_reverse.1 hc)]
    rfl
  rw [upToDigit, hdrop]
  rfl

/-- A scan that finds a start does so in a text with a digit. -/
theorem exists_digit_of_digitsStart? {start : String.Pos.Raw}
    (h : digitsStart? (upToDigit text) = some start) : ∃ c ∈ text.toList, c.isDigit = true := by
  by_contra hnone
  have hfree : ∀ c ∈ text.toList, c.isDigit = false := by
    intro c hc
    by_contra hdigit
    exact hnone ⟨c, hc, by simpa using hdigit⟩
  rw [digitsStart?_of_no_digit hfree] at h
  cases h

/-- **The number read is that of the last run of digits.** A text without a digit has none. Any other
is cut around its last run in one way, and what is read there is the number that the run spells, if
it is below `2 ^ 64`, and else none. The byte from which the run is cut off is always the boundary of
a character, and what is cut off is the run. -/
theorem last_run_read (text : String) :
    ((∀ c ∈ text.toList, c.isDigit = false) → trailing? text = none) ∧
      ((∃ c ∈ text.toList, c.isDigit = true) → ∃! cut, LastRun text cut) ∧
      (∀ cut, LastRun text cut → trailing? text =
        if value cut.digits.toList < UInt64.size then some (value cut.digits.toList) else none) ∧
      ∀ start, digitsStart? (upToDigit text) = some start →
        start.IsValid (upToDigit text) ∧
          ∃ cut, LastRun text cut ∧ upToDigit text = cut.front ++ cut.digits ∧
            textFrom? (upToDigit text) start = some cut.digits := by
  refine ⟨fun hfree => ?_, fun hdigit => ?_, fun cut hcut => ?_, fun start hstart => ?_⟩
  · rw [trailing?, digitsStart?_of_no_digit hfree]
    rfl
  · have hcut := lastRun_cutFromEnd hdigit
    exact ⟨cutFromEnd text, hcut, fun cut' hcut' => hcut'.unique hcut⟩
  · rw [hcut.trailing?_eq]
    exact natural64?_digits hcut.ne_nil hcut.isDigit
  · have hcut := lastRun_cutFromEnd (exists_digit_of_digitsStart? hstart)
    have hfound : start = (cutFromEnd text).front.rawEndPos := by
      rw [← Option.some_inj, ← hstart, hcut.digitsStart?_eq]
    have hslice : textFrom? (upToDigit text) start = some (cutFromEnd text).digits := by
      rw [hfound]
      exact hcut.textFrom?_eq
    have hvalid : start.IsValid (upToDigit text) :=
      textFrom?_isSome.1 (Option.isSome_iff_exists.2 ⟨_, hslice⟩)
    exact ⟨hvalid, cutFromEnd text, hcut, hcut.upToDigit_eq, hslice⟩

/-! ### Given texts

Of a given text a test that runs through its characters decides what is said here of all of them. -/

theorem no_digit_of_all {s : List Char} (h : s.all (! ·.isDigit) = true) :
    ∀ c ∈ s, c.isDigit = false := by
  intro c hc
  simpa using List.all_eq_true.1 h c hc

/-- Digits in the middle of a text: another run stands before them, then digits that are none of
ASCII, and on both sides characters of two to four bytes. -/
def around (digits : String) : Cut := ⟨"7 rundē １２日٣𝟙", digits, "．é"⟩

/-- The text of that cut. -/
def surrounded (digits : String) : String :=
  (around digits).front ++ digits ++ (around digits).back

theorem lastRun_surrounded {digits : String} (hne : digits.toList ≠ [])
    (h : digits.toList.all (·.isDigit) = true) : LastRun (surrounded digits) (around digits) := by
  have hlast : "7 rundē １２日٣𝟙".toList.getLast? = some '𝟙' := by decide
  refine ⟨rfl, hne, List.all_eq_true.1 h, fun c hc => ?_, no_digit_of_all (s := "．é".toList) rfl⟩
  obtain rfl : '𝟙' = c := Option.some_inj.1 (hlast.symm.trans hc)
  rfl

/-- The largest number that can be read, with zeros in front, and the next one, which cannot. -/
theorem last_run_read_surrounded :
    (∀ c ∈ "rundē １２日".toList, c.isDigit = false) ∧ trailing? "rundē １２日" = none ∧
      LastRun (surrounded "0018446744073709551615") (around "0018446744073709551615") ∧
      trailing? (surrounded "0018446744073709551615") = some 18446744073709551615 ∧
      LastRun (surrounded "18446744073709551616") (around "18446744073709551616") ∧
      trailing? (surrounded "18446744073709551616") = none ∧
      (∃ c ∈ (surrounded "19").toList, c.isDigit = true) ∧
      (∃! cut, LastRun (surrounded "19") cut) ∧
      digitsStart? (upToDigit (surrounded "19")) = some ⟨24⟩ ∧
      String.Pos.Raw.IsValid (upToDigit (surrounded "19")) ⟨24⟩ := by
  have hfree : ∀ c ∈ "rundē １２日".toList, c.isDigit = false := no_digit_of_all (by decide)
  have hlargest := @lastRun_surrounded "0018446744073709551615" (by decide) (by decide)
  have hnext := @lastRun_surrounded "18446744073709551616" (by decide) (by decide)
  have hdigit : ∃ c ∈ (surrounded "19").toList, c.isDigit = true :=
    List.any_eq_true.1 (by decide : (surrounded "19").toList.any (·.isDigit) = true)
  have hstart : digitsStart? (upToDigit (surrounded "19")) = some ⟨24⟩ := by decide
  refine ⟨hfree, (last_run_read _).1 hfree, hlargest, ?_, hnext, ?_, hdigit,
    (last_run_read _).2.1 hdigit, hstart, ((last_run_read _).2.2.2 _ hstart).1⟩
  · rw [(last_run_read _).2.2.1 _ hlargest]
    decide
  · rw [(last_run_read _).2.2.1 _ hnext]
    decide

end RunAudit.Decimal
