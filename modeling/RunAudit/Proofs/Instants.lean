import RunAudit.Proofs.Trimming
import RunAudit.Time.Text

/-!
# Reading back instants

An instant is written field by field, each a number with zeros in front, and a mark between any two
fields. A field that is read reaches as far as digits go, so it ends at the mark; and what is read
there is the number that was written, whatever the zeros in front.

* `Numeral`, `numeral_padded`: digits that spell a number, and that padding does.
* `readNumber_numeral`, `readPair_numeral`: a numeral is read up to its end.
* `readYear_render`, `readFraction_render`: the fields that are written in more than one way.
* `Instant.read?_render`: an instant is read back from its date and its time of day.
* `Date.not_blank_of_mem_render`, `Clock.not_blank_of_mem_render`: both are words.
-/

namespace RunAudit.Decimal

variable {n : Nat} {digits : List Char}

/-- **A numeral of a number**: digits, at least one, that spell it. -/
structure Numeral (n : Nat) (digits : List Char) : Prop where
  ne_nil : digits ≠ []
  isDigit : ∀ c ∈ digits, c.isDigit = true
  value_eq : value digits = n

theorem tenTo_add (m k : Nat) : tenTo (m + k) = tenTo m * tenTo k := Nat.pow_add 10 m k

theorem value_append (front back : List Char) :
    value (front ++ back) = value front * tenTo back.length + value back := by
  have h : value (front ++ back) = Nat.ofDigitChars 10 back (value front) :=
    Nat.ofDigitChars_append 0
  rw [h, Nat.ofDigitChars_eq_ofDigitChars_zero, Nat.mul_comm]
  rfl

theorem value_replicate_zero (k : Nat) : value (List.replicate k '0') = 0 := by
  induction k with
  | zero => rfl
  | succ k ih =>
    rw [List.replicate_succ', value_append, ih]
    rfl

theorem toList_padded (width n : Nat) :
    (padded width n).toList =
      List.replicate (width - (Nat.toDigits 10 n).length) '0' ++ Nat.toDigits 10 n := by
  unfold padded
  rw [String.toList_ofList]

/-- **Zeros in front of a number** do not change it. -/
theorem numeral_padded (width n : Nat) : Numeral n (padded width n).toList := by
  rw [toList_padded]
  refine ⟨?_, ?_, ?_⟩
  · exact List.append_ne_nil_of_right_ne_nil _ Nat.toDigits_ne_nil
  · intro c hc
    rcases List.mem_append.1 hc with hzero | hdigit
    · rw [List.eq_of_mem_replicate hzero]
      rfl
    · exact Nat.isDigit_of_mem_toDigits (by decide) (by decide) hdigit
  · rw [value_append, value_replicate_zero, Nat.zero_mul, Nat.zero_add]
    exact Nat.ofDigitChars_ten_toDigits

theorem length_padded {width : Nat} (hwidth : 0 < width) (hn : n < tenTo width) :
    (padded width n).toList.length = width := by
  have hlength : (Nat.toDigits 10 n).length ≤ width :=
    (Nat.length_toDigits_le_iff (by decide) hwidth).2 hn
  rw [toList_padded, List.length_append, List.length_replicate]
  omega

/-- A digit is not blank. -/
theorem isBlank_of_isDigit {c : Char} (h : c.isDigit = true) : Text.isBlank c = false := by
  obtain ⟨hlow, hhigh⟩ := Char.isDigit_iff_toNat.1 h
  have hzero : '0'.toNat = 48 := rfl
  have hnine : '9'.toNat = 57 := rfl
  exact Text.isBlank_eq_false_of_ascii (by omega) (by omega)

theorem Numeral.isWord (h : Numeral n digits) : Text.IsWord digits :=
  ⟨h.ne_nil, fun c hc => isBlank_of_isDigit (h.isDigit c hc)⟩

theorem Numeral.head_isDigit (h : Numeral n digits) (rest : List Char) :
    ∃ c later, digits ++ rest = c :: later ∧ c.isDigit = true := by
  obtain ⟨c, later, rfl⟩ := List.exists_cons_of_ne_nil h.ne_nil
  exact ⟨c, later ++ rest, rfl, h.isDigit c List.mem_cons_self⟩

end RunAudit.Decimal

namespace RunAudit.Time

open RunAudit.Decimal RunAudit.Text

variable {n width : Nat} {digits rest : List Char}

/-! ### Fields -/

/-- **A numeral is read up to its end**, where no digit follows. -/
theorem readNumber_numeral (h : Numeral n digits) (hle : digits.length ≤ width)
    (hstop : ∀ c ∈ rest.head?, c.isDigit = false) :
    readNumber width (digits ++ rest) = some (n, rest) := by
  have htaken : ∀ c ∈ (rest.take (width - digits.length)).head?, c.isDigit = false := by
    intro c hc
    rw [List.head?_take] at hc
    split at hc
    · cases hc
    · exact hstop c hc
  have hdigits : ((digits ++ rest).take width).takeWhile (·.isDigit) = digits := by
    rw [List.take_append, List.take_of_length_le hle]
    exact takeWhile_append_stop h.isDigit htaken
  have hrest : (digits ++ rest).drop digits.length = rest := List.drop_left
  obtain ⟨c, later, rfl⟩ := List.exists_cons_of_ne_nil h.ne_nil
  unfold readNumber
  rw [hdigits]
  simp only [hrest, h.value_eq]

/-- No blank stands in front of a numeral. -/
theorem trimStart_numeral (h : Numeral n digits) (rest : List Char) :
    trimStart (digits ++ rest) = digits ++ rest := by
  obtain ⟨c, later, hcons, hc⟩ := h.head_isDigit rest
  rw [hcons, trimStart_cons (isBlank_of_isDigit hc)]

/-- A field of two digits. -/
theorem readPair_padded (hn : n < 100) (hstop : ∀ c ∈ rest.head?, c.isDigit = false) :
    readPair ((padded 2 n).toList ++ rest) = some (n, rest) := by
  have hnumeral := numeral_padded 2 n
  unfold readPair
  rw [trimStart_numeral hnumeral]
  exact readNumber_numeral hnumeral (length_padded (by decide) hn).le hstop

@[simp] theorem readChar_self (c : Char) (rest : List Char) : readChar c (c :: rest) = some rest :=
  if_pos rfl

/-- **A year** is read back from either way to write it. -/
theorem readYear_render (year : Int) (hstop : ∀ c ∈ rest.head?, c.isDigit = false) :
    readYear ((renderYear year).toList ++ rest) = some (year, rest) := by
  have hnumeral := numeral_padded 4 year.natAbs
  -- a sign is followed by as many digits as there are
  have hsigned : readNumber ((padded 4 year.natAbs).toList ++ rest).length
      ((padded 4 year.natAbs).toList ++ rest) = some (year.natAbs, rest) :=
    readNumber_numeral hnumeral (by simp) hstop
  unfold renderYear
  split
  · next hneg =>
    have hminus : ("-" ++ padded 4 year.natAbs).toList ++ rest =
        '-' :: ((padded 4 year.natAbs).toList ++ rest) := by
      rw [String.toList_append]
      rfl
    have hyear : -(year.natAbs : Int) = year := by omega
    unfold readYear
    rw [hminus, trimStart_cons (by decide)]
    simp only [hsigned, Option.map_some, hyear]
  · split
    · next hnonneg hlarge =>
      have hplus : ("+" ++ padded 4 year.natAbs).toList ++ rest =
          '+' :: ((padded 4 year.natAbs).toList ++ rest) := by
        rw [String.toList_append]
        rfl
      have hyear : (year.natAbs : Int) = year := by omega
      unfold readYear
      rw [hplus, trimStart_cons (by decide)]
      simp only [hsigned, Option.map_some, hyear]
    · next hnonneg hsmall =>
      have hyear : (year.natAbs : Int) = year := by omega
      have hlength : (padded 4 year.natAbs).toList.length = 4 :=
        length_padded (by decide) (by simp [tenTo]; omega)
      have hread : readNumber 4 ((padded 4 year.natAbs).toList ++ rest) =
          some (year.natAbs, rest) :=
        readNumber_numeral hnumeral hlength.le hstop
      obtain ⟨c, later, hcons, hc⟩ := hnumeral.head_isDigit rest
      rw [hcons] at hread ⊢
      unfold readYear
      rw [trimStart_cons (isBlank_of_isDigit hc)]
      -- a digit is no sign
      split
      · next heq =>
        cases heq
        cases hc
      · next heq =>
        cases heq
        cases hc
      · simp only [hread, Option.map_some, hyear]

/-- **A fraction of a second** is read back from as many digits as it is written with. -/
theorem readFraction_numeral (h : Numeral n digits) (hle : digits.length ≤ 9) :
    readFraction ('.' :: digits) = some (n * tenTo (9 - digits.length), []) := by
  have hall : digits.takeWhile (·.isDigit) = digits := by
    have hstop : ∀ c ∈ ([] : List Char).head?, c.isDigit = false := by simp
    simpa using takeWhile_append_stop h.isDigit hstop
  have hkept : digits.take 9 = digits := List.take_of_length_le hle
  have hvalue : value (digits ++ List.replicate (9 - digits.length) '0') =
      n * tenTo (9 - digits.length) := by
    rw [value_append, h.value_eq, value_replicate_zero, List.length_replicate, Nat.add_zero]
  obtain ⟨c, later, rfl⟩ := List.exists_cons_of_ne_nil h.ne_nil
  simp only [readFraction]
  rw [hall]
  simp only [hkept, hvalue, List.drop_length]

/-- The fraction of a second as a log writes it. -/
def fractionText (nanosecond : Nat) : String :=
  if nanosecond = 0 then ""
  else if nanosecond % 1000000 = 0 then "." ++ padded 3 (nanosecond / 1000000)
  else if nanosecond % 1000 = 0 then "." ++ padded 6 (nanosecond / 1000)
  else "." ++ padded 9 nanosecond

/-- A fraction with a number of places, if those behind are zeros. -/
theorem readFraction_padded (places : Nat) (hpos : 0 < places) (hle : places ≤ 9)
    (hn : n < tenTo 9) (hdvd : n % tenTo (9 - places) = 0) :
    readFraction ("." ++ padded places (n / tenTo (9 - places))).toList = some (n, []) := by
  have hpoint : ("." ++ padded places (n / tenTo (9 - places))).toList =
      '.' :: (padded places (n / tenTo (9 - places))).toList := by
    rw [String.toList_append]
    rfl
  have hnine : tenTo 9 = tenTo (9 - places) * tenTo places := by
    rw [← tenTo_add, Nat.sub_add_cancel hle]
  have hquotient : n / tenTo (9 - places) < tenTo places :=
    Nat.div_lt_of_lt_mul (hnine ▸ hn)
  have hlength := length_padded hpos hquotient
  rw [hpoint, readFraction_numeral (numeral_padded _ _) (hlength.le.trans hle), hlength,
    Nat.div_mul_cancel (Nat.dvd_of_mod_eq_zero hdvd)]

/-- **A fraction of a second** is read back. -/
theorem readFraction_render (hn : n < tenTo 9) :
    readFraction (fractionText n).toList = some (n, []) := by
  unfold fractionText
  split
  · next hzero =>
    rw [hzero]
    rfl
  · split
    · next hmilli => exact readFraction_padded 3 (by decide) (by decide) hn hmilli
    · split
      · next hmicro => exact readFraction_padded 6 (by decide) (by decide) hn hmicro
      · have hall := readFraction_padded 9 (by decide) (by decide) hn (Nat.mod_one n)
        rwa [show tenTo (9 - 9) = 1 from rfl, Nat.div_one] at hall

/-! ### Instants -/

theorem Date.make?_self (d : Date) : Date.make? d.year d.month d.day = some d := by
  unfold Date.make?
  rw [dif_pos d.year_mem, dif_pos d.month_mem, dif_pos d.day_mem]

theorem Clock.make?_self (c : Clock) :
    Clock.make? c.hour c.minute c.second c.nanosecond = some c := by
  unfold Clock.make?
  rw [dif_pos c.hour_lt, dif_pos c.minute_lt, dif_pos c.second_le, dif_pos c.nanosecond_lt]

theorem Clock.render_eq (c : Clock) : c.render = c.renderSeconds ++ fractionText c.nanosecond := rfl

theorem fractionText_cases (n : Nat) :
    fractionText n = "" ∨ ∃ places m, fractionText n = "." ++ padded places m := by
  unfold fractionText
  split
  · exact .inl rfl
  · split
    · exact .inr ⟨_, _, rfl⟩
    · split
      · exact .inr ⟨_, _, rfl⟩
      · exact .inr ⟨_, _, rfl⟩

theorem fractionText_head (n : Nat) : ∀ c ∈ (fractionText n).toList.head?, c.isDigit = false := by
  rcases fractionText_cases n with h | ⟨places, m, h⟩
  · simp [h]
  · intro c hc
    rw [h, String.toList_append] at hc
    cases hc
    rfl

/-- The fields of an instant, with the marks between them. -/
theorem toList_render_render (d : Date) (c : Clock) :
    d.render.toList ++ ' ' :: c.render.toList =
      (renderYear d.year).toList ++ '-' :: ((padded 2 d.month).toList ++
        '-' :: ((padded 2 d.day).toList ++ ' ' :: ((padded 2 c.hour).toList ++
          ':' :: ((padded 2 c.minute).toList ++ ':' :: ((padded 2 c.second).toList ++
            (fractionText c.nanosecond).toList))))) := by
  have hdash : "-".toList = ['-'] := rfl
  have hcolon : ":".toList = [':'] := rfl
  rw [Clock.render_eq]
  unfold Date.render Clock.renderSeconds
  simp only [String.toList_append, List.append_assoc, hdash, hcolon, List.cons_append,
    List.nil_append]

theorem trimStart_space_numeral (h : Numeral n digits) (rest : List Char) :
    trimStart (' ' :: (digits ++ rest)) = digits ++ rest := by
  have hspace : trimStart (' ' :: (digits ++ rest)) = trimStart (digits ++ rest) :=
    List.dropWhile_cons_of_pos (by decide)
  rw [hspace, trimStart_numeral h]

/-- **An instant is read back** from its date and its time of day. -/
theorem Instant.read?_render (t : Instant) :
    Instant.read? .blanks (t.date.render.toList ++ ' ' :: t.clock.render.toList) = some t := by
  obtain ⟨d, c⟩ := t
  have hday := d.day_le
  have hmonth := d.month_mem
  have hhour := c.hour_lt
  have hminute := c.minute_lt
  have hsecond := c.second_le
  -- one field after the other, each up to the mark behind it
  unfold Instant.read?
  rw [toList_render_render, readYear_render _ (by simp)]
  simp only [Option.bind_eq_bind, Option.bind_some, readChar_self]
  rw [readPair_padded (by omega) (by simp)]
  simp only [Option.bind_some, readChar_self]
  rw [readPair_padded (by omega) (by simp)]
  simp only [Option.bind_some, Joint.read?, trimStart_space_numeral (numeral_padded 2 c.hour)]
  rw [readPair_padded (by omega) (by simp)]
  simp only [Option.bind_some, readChar_self]
  rw [readPair_padded (by omega) (by simp)]
  simp only [Option.bind_some, readChar_self]
  rw [readPair_padded (by omega) (fractionText_head _)]
  simp only [Option.bind_some]
  rw [readFraction_render c.nanosecond_lt]
  simp only [Option.bind_some, Date.make?_self, Clock.make?_self]
  rfl

/-! ### Words -/

theorem isWord_padded (width n : Nat) : IsWord (padded width n).toList :=
  (numeral_padded width n).isWord

/-- A number behind a mark, in front of more. -/
theorem isWord_mark_padded {s mark : String} (h : IsWord s.toList)
    (hmark : ∀ c ∈ mark.toList, isBlank c = false) (width n : Nat) :
    IsWord (s ++ mark ++ padded width n).toList := by
  rw [String.toList_append, String.toList_append]
  exact (h.append hmark).append (isWord_padded width n).not_blank

theorem isWord_renderYear (year : Int) : IsWord (renderYear year).toList := by
  have hsign : ∀ sign : String, IsWord sign.toList →
      IsWord (sign ++ padded 4 year.natAbs).toList := by
    intro sign hsign
    rw [String.toList_append]
    exact hsign.append (isWord_padded 4 _).not_blank
  unfold renderYear
  split
  · exact hsign "-" ⟨by decide, not_blank_of_all (by decide)⟩
  · split
    · exact hsign "+" ⟨by decide, not_blank_of_all (by decide)⟩
    · exact isWord_padded 4 _

/-- **A date is a word.** -/
theorem Date.isWord_render (d : Date) : IsWord d.render.toList :=
  isWord_mark_padded
    (isWord_mark_padded (isWord_renderYear d.year) (not_blank_of_all (by decide)) 2 d.month)
    (not_blank_of_all (by decide)) 2 d.day

theorem fractionText_not_blank (n : Nat) : ∀ c ∈ (fractionText n).toList, isBlank c = false := by
  rcases fractionText_cases n with h | ⟨places, m, h⟩
  · simp [h]
  · have hpoint : IsWord ".".toList := ⟨by decide, not_blank_of_all (by decide)⟩
    rw [h, String.toList_append]
    exact (hpoint.append (isWord_padded places m).not_blank).not_blank

/-- **A time of day is a word.** -/
theorem Clock.isWord_render (c : Clock) : IsWord c.render.toList := by
  have hseconds : IsWord c.renderSeconds.toList :=
    isWord_mark_padded
      (isWord_mark_padded (isWord_padded 2 c.hour) (not_blank_of_all (by decide)) 2 c.minute)
      (not_blank_of_all (by decide)) 2 c.second
  rw [Clock.render_eq, String.toList_append]
  exact hseconds.append (fractionText_not_blank _)

end RunAudit.Time
