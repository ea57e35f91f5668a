import RunAudit.Proofs.Attempts

/-!
# Elapsed time

Days are numbered in the order of the calendar and without gaps, so an instant has a place on a line
on which every day is as long as any other, and the time between two instants is the distance of their
places. An instant inside a leap second has no place there; time to and from it still tells the order on
one day, but not over midnight. Between other instants no leap second counts.

* `Date.dayNumber_lt_iff`, `Date.dayNumber_of_isNext`: the numbers of days.
* `Clock.since_nonneg_iff`, `Clock.since_add`: the time between two times of one day.
* `Instant.since_eq_ticks`: time as a distance of places.
* `Instant.since_nonneg_iff`, `Instant.since_add`: its sign is the order of the instants, and it adds
  up.
* `Instant.secondsSince_eq_iff`, `Instant.secondsSince_swap`: whole seconds are those that have passed
  completely, one way or the other.
* `judgePlain_of_later`, `tolerated_of_between`: the windows in which exceptions are expected have no
  gaps.
* `finished_in_seconds`: what the seconds of a finished attempt are.
-/

namespace RunAudit

namespace Time

/-! ### Days -/

/-- The number of days in a year. -/
def daysInYear (year : Int) : Int := if isLeapYear year then 366 else 365

/-- The number of the first of January of a year. -/
def yearStart (year : Int) : Int :=
  365 * (year - 1) + (year - 1) / 4 - (year - 1) / 100 + (year - 1) / 400

theorem yearStart_succ (year : Int) : yearStart (year + 1) = yearStart year + daysInYear year := by
  have hleap : isLeapYear year = true ↔ year % 4 = 0 ∧ (year % 100 ≠ 0 ∨ year % 400 = 0) := by
    simp [isLeapYear]
  unfold yearStart daysInYear
  -- of the quotients only those change whose divisor divides the year
  split
  · rename_i h
    have := hleap.1 h
    omega
  · rename_i h
    have := mt hleap.2 h
    omega

theorem yearStart_mono {a b : Int} (h : a ≤ b) : yearStart a ≤ yearStart b := by
  unfold yearStart
  omega

namespace Date

theorem daysBeforeMonth_succ (year : Int) {month : Nat} (h : 1 ≤ month) :
    daysBeforeMonth year (month + 1) = daysBeforeMonth year month + daysInMonth year month := by
  obtain ⟨m, rfl⟩ : ∃ m, month = m + 1 := ⟨month - 1, by omega⟩
  rfl

theorem daysBeforeMonth_mono (year : Int) {a b : Nat} (h : a ≤ b) :
    daysBeforeMonth year a ≤ daysBeforeMonth year b := by
  induction h with
  | refl => exact Nat.le_refl _
  | @step b hab ih =>
    rcases Nat.eq_zero_or_pos b with rfl | hb
    · exact ih
    · rw [daysBeforeMonth_succ year hb]
      omega

/-- The months make up the year. -/
theorem daysBeforeMonth_thirteen (year : Int) :
    (daysBeforeMonth year 13 : Int) = daysInYear year := by
  cases h : isLeapYear year <;> simp [daysBeforeMonth, daysInMonth, daysInYear, h]

theorem dayNumber_eq (d : Date) :
    d.dayNumber = yearStart d.year + daysBeforeMonth d.year d.month + (d.day - 1) := rfl

/-- A month ends before the next one starts. -/
theorem daysBeforeMonth_add_day_le (d : Date) {month : Nat} (h : d.month < month) :
    daysBeforeMonth d.year d.month + d.day ≤ daysBeforeMonth d.year month := by
  have hmonth := daysBeforeMonth_succ d.year d.month_mem.1
  have hlater := daysBeforeMonth_mono d.year (show d.month + 1 ≤ month from h)
  have hday := d.day_mem.2
  omega

/-- The place of a day follows its year, its month and its day. -/
theorem rank_lt_iff (a b : Date) : a.rank < b.rank ↔
    a.year < b.year ∨ a.year = b.year ∧
      (a.month < b.month ∨ a.month = b.month ∧ a.day < b.day) := by
  have ha := a.day_le
  have hb := b.day_le
  have hma := a.month_mem
  have hmb := b.month_mem
  unfold rank
  omega

/-- Later days have larger numbers. -/
theorem dayNumber_lt {a b : Date} (h : a.rank < b.rank) : a.dayNumber < b.dayNumber := by
  have ha := a.day_mem
  have hb := b.day_mem
  rw [dayNumber_eq, dayNumber_eq]
  rcases (rank_lt_iff a b).1 h with hyear | ⟨hyear, hmonth | ⟨hmonth, hday⟩⟩
  · -- the rest of the year of `a` is over before the year of `b` starts
    have hmonth : a.month < 13 := Nat.lt_succ_of_le a.month_mem.2
    have hend := a.daysBeforeMonth_add_day_le hmonth
    have hmonths := daysBeforeMonth_thirteen a.year
    have hnext := yearStart_succ a.year
    have hlater := yearStart_mono (Int.add_one_le_of_lt hyear)
    omega
  · have hend := a.daysBeforeMonth_add_day_le hmonth
    rw [hyear] at hend ⊢
    omega
  · rw [hyear, hmonth]
    omega

/-- **Days are numbered in the order of the calendar.** -/
theorem dayNumber_lt_iff (a b : Date) : a.dayNumber < b.dayNumber ↔ a.rank < b.rank := by
  refine ⟨fun h => ?_, dayNumber_lt⟩
  rcases Int.lt_trichotomy a.rank b.rank with hab | hab | hab
  · exact hab
  · cases rank_injective hab
    omega
  · have := dayNumber_lt hab
    omega

theorem dayNumber_injective {a b : Date} (h : a.dayNumber = b.dayNumber) : a = b := by
  have hab := dayNumber_lt_iff a b
  have hba := dayNumber_lt_iff b a
  exact rank_injective (by omega)

/-- Whether a day is the first after another: in its month, in the next one or in the next year. -/
def IsNext (a b : Date) : Prop :=
  (b.year = a.year ∧ b.month = a.month ∧ b.day = a.day + 1) ∨
    (b.year = a.year ∧ b.month = a.month + 1 ∧ b.day = 1 ∧ a.day = daysInMonth a.year a.month) ∨
    (b.year = a.year + 1 ∧ b.month = 1 ∧ b.day = 1 ∧ a.month = 12 ∧ a.day = 31)

/-- **Days are numbered without gaps.** -/
theorem dayNumber_of_isNext {a b : Date} (h : a.IsNext b) : b.dayNumber = a.dayNumber + 1 := by
  rw [dayNumber_eq, dayNumber_eq]
  rcases h with ⟨hy, hm, hd⟩ | ⟨hy, hm, hd, ha⟩ | ⟨hy, hm, hd, ham, had⟩
  · rw [hy, hm, hd]
    omega
  · have hmonth := daysBeforeMonth_succ a.year a.month_mem.1
    rw [hy, hm, hd, ha]
    omega
  · have hmonths := daysBeforeMonth_thirteen a.year
    have hlast : daysBeforeMonth a.year 13 = daysBeforeMonth a.year 12 + 31 := rfl
    have hnext := yearStart_succ a.year
    have hfirst : daysBeforeMonth (a.year + 1) 1 = 0 := rfl
    rw [hy, hm, hd, ham, had]
    omega

end Date

/-! ### Times of one day -/

namespace Clock

theorem beyondSecond_of_not_leap {c : Clock} (h : c.inLeapSecond = false) :
    c.beyondSecond = c.nanosecond := by
  simp [beyondSecond, h]

theorem beyondSecond_of_leap {c : Clock} (h : c.inLeapSecond = true) :
    c.beyondSecond = 1000000000 + c.nanosecond := by
  simp [beyondSecond, h]

theorem nanosecond_le_beyondSecond (c : Clock) : c.nanosecond ≤ c.beyondSecond := by
  cases h : c.inLeapSecond
  · exact Int.le_of_eq (beyondSecond_of_not_leap h).symm
  · rw [beyondSecond_of_leap h]
    omega

/-- The place of a time follows the second that has begun and what is past it. -/
theorem rank_le_iff (a b : Clock) : a.rank ≤ b.rank ↔
    a.wholeSeconds < b.wholeSeconds ∨
      a.wholeSeconds = b.wholeSeconds ∧ a.beyondSecond ≤ b.beyondSecond := by
  have hsa := a.second_le
  have hsb := b.second_le
  have hma := a.minute_lt
  have hmb := b.minute_lt
  have hna := a.nanosecond_lt
  have hnb := b.nanosecond_lt
  unfold rank wholeSeconds beyondSecond inLeapSecond
  simp only [beq_iff_eq]
  split <;> split <;> omega

/-- Within one second, counted with the leap second after it. -/
theorem since_of_eq {later earlier : Clock} (h : earlier.wholeSeconds = later.wholeSeconds) :
    later.since earlier = later.beyondSecond - earlier.beyondSecond := by
  simp [since, h]

/-- Time goes on from inside a leap second as if it were the second before. -/
theorem since_of_lt {later earlier : Clock} (h : earlier.wholeSeconds < later.wholeSeconds) :
    later.since earlier = (later.wholeSeconds - earlier.wholeSeconds) * 1000000000
      + (later.beyondSecond - earlier.nanosecond) := by
  have hnot : ¬ later.wholeSeconds < earlier.wholeSeconds := by omega
  cases hl : earlier.inLeapSecond with
  | false =>
    rw [since, beyondSecond_of_not_leap hl]
    simp [hl, hnot]
  | true =>
    rw [since, beyondSecond_of_leap hl]
    simp only [h, hl, and_self, if_true]
    omega

@[simp] theorem since_self (c : Clock) : c.since c = 0 := by simp [since_of_eq]

/-- The other way the same time has passed, with the other sign. -/
theorem since_swap (a b : Clock) : a.since b = -(b.since a) := by
  unfold since
  -- either way it is the leap second of the earlier time that counts
  rcases Int.lt_trichotomy a.wholeSeconds b.wholeSeconds with h | h | h
  · have hnot : ¬ b.wholeSeconds < a.wholeSeconds := by omega
    simp only [h, hnot, true_and, false_and, if_false]
    split <;> omega
  · simp only [h, Int.lt_irrefl, false_and, if_false]
    omega
  · have hnot : ¬ a.wholeSeconds < b.wholeSeconds := by omega
    simp only [h, hnot, true_and, false_and, if_false]
    split <;> omega

/-- **On one day the time between two times tells their order**, leap seconds included. -/
theorem since_nonneg_iff (later earlier : Clock) :
    0 ≤ later.since earlier ↔ earlier.rank ≤ later.rank := by
  rw [rank_le_iff]
  have hl := later.nanosecond_le_beyondSecond
  have he := earlier.nanosecond_le_beyondSecond
  have hnl := later.nanosecond_lt
  have hne := earlier.nanosecond_lt
  rcases Int.lt_trichotomy earlier.wholeSeconds later.wholeSeconds with h | h | h
  · rw [since_of_lt h]
    omega
  · rw [since_of_eq h]
    omega
  · rw [since_swap, since_of_lt h]
    omega

/-- **Times of one day add up** by way of a time between them that is not inside a leap second. -/
theorem since_add {first middle last : Clock} (h : first.rank ≤ middle.rank)
    (h' : middle.rank ≤ last.rank) (hm : middle.inLeapSecond = false) :
    middle.since first + last.since middle = last.since first := by
  have hnanos := beyondSecond_of_not_leap hm
  have hlt_second := middle.nanosecond_lt
  rcases (rank_le_iff first middle).1 h with hlt | ⟨heq, hle⟩
  · rw [since_of_lt hlt]
    rcases (rank_le_iff middle last).1 h' with hlt' | ⟨heq', -⟩
    · rw [since_of_lt hlt', since_of_lt (Int.lt_trans hlt hlt')]
      omega
    · rw [since_of_eq heq', since_of_lt (heq' ▸ hlt)]
      omega
  · rw [since_of_eq heq]
    rcases (rank_le_iff middle last).1 h' with hlt' | ⟨heq', -⟩
    · -- `first` is outside a leap second as well, or `middle` would come before it
      have hfirst : first.beyondSecond = first.nanosecond := by
        cases hf : first.inLeapSecond
        · exact beyondSecond_of_not_leap hf
        · rw [beyondSecond_of_leap hf] at hle
          omega
      rw [since_of_lt hlt', since_of_lt (heq ▸ hlt')]
      omega
    · rw [since_of_eq heq', since_of_eq (heq.trans heq')]
      omega

/-- Outside leap seconds the time between two times is a plain difference. -/
theorem since_of_not_leap {later earlier : Clock} (hl : later.inLeapSecond = false)
    (he : earlier.inLeapSecond = false) :
    later.since earlier = (later.wholeSeconds - earlier.wholeSeconds) * 1000000000
      + (later.nanosecond - earlier.nanosecond) := by
  rw [since, beyondSecond_of_not_leap hl, beyondSecond_of_not_leap he]
  simp [hl, he]

/-- Fewer seconds have begun than a day has. -/
theorem wholeSeconds_mem (c : Clock) : 0 ≤ c.wholeSeconds ∧ c.wholeSeconds < 86400 := by
  have := c.hour_lt
  have := c.minute_lt
  unfold wholeSeconds
  omega

end Clock

/-! ### Instants -/

namespace Instant

/-- The place of an instant on a line of nanoseconds without leap seconds. -/
def ticks (t : Instant) : Int :=
  t.date.dayNumber * 86400000000000 + t.clock.wholeSeconds * 1000000000 + t.clock.nanosecond

/-- Whether an instant lies inside a leap second. -/
def InLeapSecond (t : Instant) : Prop := t.clock.inLeapSecond = true

variable {later earlier : Instant}

@[simp] theorem since_self (t : Instant) : t.since t = 0 := by simp [since]

/-- The other way the same time has passed, with the other sign. -/
theorem since_swap (a b : Instant) : a.since b = -(b.since a) := by
  rw [since, since, Clock.since_swap]
  omega

/-- On one day only the times of day count. -/
theorem since_of_date_eq (h : later.date = earlier.date) :
    later.since earlier = later.clock.since earlier.clock := by
  simp [since, h]

/-- **A day has 86400 seconds**, from any time of it to the same time of the next. -/
theorem since_of_isNext (h : earlier.date.IsNext later.date) (hc : later.clock = earlier.clock) :
    later.since earlier = seconds 86400 := by
  rw [since, Date.dayNumber_of_isNext h, hc, Clock.since_self]
  unfold seconds
  omega

/-- **Outside leap seconds the time between two instants is the distance of their places.** -/
theorem since_eq_ticks (hl : ¬ later.InLeapSecond) (he : ¬ earlier.InLeapSecond) :
    later.since earlier = later.ticks - earlier.ticks := by
  unfold InLeapSecond at hl he
  rw [since, Clock.since_of_not_leap (eq_false_of_ne_true hl) (eq_false_of_ne_true he)]
  unfold ticks
  omega

theorem le_iff (a b : Instant) : a ≤ b ↔
    a.date.rank < b.date.rank ∨ a.date = b.date ∧ a.clock.rank ≤ b.clock.rank := by
  have hiff : a ≤ b ↔ a.rank ≤ b.rank := Iff.rfl
  have ha := a.clock.rank_lt
  have hb := b.clock.rank_lt
  rw [hiff]
  unfold rank
  constructor
  · intro h
    rcases Int.lt_trichotomy a.date.rank b.date.rank with hlt | heq | hgt
    · exact .inl hlt
    · exact .inr ⟨Date.rank_injective heq, by omega⟩
    · omega
  · rintro (hlt | ⟨heq, hle⟩)
    · omega
    · rw [heq]
      omega

/-- Outside leap seconds places are in order. -/
theorem ticks_le_iff {a b : Instant} (ha : ¬ a.InLeapSecond) (hb : ¬ b.InLeapSecond) :
    a.ticks ≤ b.ticks ↔ a ≤ b := by
  have hsa := a.clock.wholeSeconds_mem
  have hsb := b.clock.wholeSeconds_mem
  have hna := a.clock.nanosecond_lt
  have hnb := b.clock.nanosecond_lt
  have hclock := Clock.rank_le_iff a.clock b.clock
  rw [Clock.beyondSecond_of_not_leap (eq_false_of_ne_true ha),
    Clock.beyondSecond_of_not_leap (eq_false_of_ne_true hb)] at hclock
  have hdate : a.date = b.date ↔ a.date.dayNumber = b.date.dayNumber :=
    ⟨congrArg Date.dayNumber, Date.dayNumber_injective⟩
  rw [le_iff, ← Date.dayNumber_lt_iff, hclock, hdate]
  unfold ticks
  omega

/-- **The sign of the time between two instants tells their order**, on one day and, outside leap
seconds, over any number of days. -/
theorem since_nonneg_iff
    (h : later.date = earlier.date ∨ ¬ later.InLeapSecond ∧ ¬ earlier.InLeapSecond) :
    0 ≤ later.since earlier ↔ earlier ≤ later := by
  rcases h with h | ⟨hl, he⟩
  · rw [since_of_date_eq h, Clock.since_nonneg_iff, le_iff, h]
    simp
  · rw [since_eq_ticks hl he, ← ticks_le_iff he hl]
    omega

/-- **Outside leap seconds times add up**, in whatever order the instants are. -/
theorem since_add {first middle last : Instant} (hf : ¬ first.InLeapSecond)
    (hm : ¬ middle.InLeapSecond) (hl : ¬ last.InLeapSecond) :
    middle.since first + last.since middle = last.since first := by
  rw [since_eq_ticks hm hf, since_eq_ticks hl hm, since_eq_ticks hl hf]
  omega

/-- More time has passed at a later instant. -/
theorem since_mono {first middle last : Instant} (hf : ¬ first.InLeapSecond)
    (hm : ¬ middle.InLeapSecond) (hl : ¬ last.InLeapSecond) (h : middle ≤ last) :
    middle.since first ≤ last.since first := by
  have hsum := since_add hf hm hl
  have hnonneg := (since_nonneg_iff (.inr ⟨hl, hm⟩)).2 h
  omega

/-- Less time has passed since a later instant. -/
theorem since_anti {first middle last : Instant} (hf : ¬ first.InLeapSecond)
    (hm : ¬ middle.InLeapSecond) (hl : ¬ last.InLeapSecond) (h : first ≤ middle) :
    last.since middle ≤ last.since first := by
  have hsum := since_add hf hm hl
  have hnonneg := (since_nonneg_iff (.inr ⟨hm, hf⟩)).2 h
  omega

/-- **Whole seconds are those that have passed completely.** -/
theorem secondsSince_eq_iff (h : 0 ≤ later.since earlier) (n : Nat) :
    later.secondsSince earlier = n ↔
      seconds n ≤ later.since earlier ∧ later.since earlier < seconds (n + 1) := by
  unfold secondsSince seconds
  rw [Int.tdiv_eq_ediv_of_nonneg h]
  omega

theorem exists_secondsSince (h : 0 ≤ later.since earlier) :
    ∃ n : Nat, later.secondsSince earlier = n := by
  refine Int.eq_ofNat_of_zero_le ?_
  unfold secondsSince
  rw [Int.tdiv_eq_ediv_of_nonneg h]
  omega

theorem secondsSince_swap (a b : Instant) : a.secondsSince b = -(b.secondsSince a) := by
  unfold secondsSince
  rw [since_swap, Int.neg_tdiv]

end Instant

end Time

/-! ### Windows and durations -/

open Check Config Log Reconnect Time

/-- **The window at the end of a run reaches to its end**: an exception that is expected at some time
is expected at all later times. -/
theorem judgePlain_of_later {closing raised raised' : Instant} {e e' : Entry}
    (hm : e'.marker = e.marker) (ht : e.timestamp = some raised)
    (ht' : e'.timestamp = some raised') (h : raised ≤ raised') (hc : ¬ closing.InLeapSecond)
    (hr : ¬ raised.InLeapSecond) (hr' : ¬ raised'.InLeapSecond)
    (hjudged : judgePlain (some closing) e = .info) : judgePlain (some closing) e' = .info := by
  unfold judgePlain at hjudged ⊢
  rw [hm, ht']
  rw [ht] at hjudged
  split at hjudged
  · rfl
  · simp only [ite_eq_left_iff, reduceCtorEq, imp_false, Decidable.not_not] at hjudged ⊢
    exact Int.le_trans (Instant.since_anti hr hr' hc h) hjudged
  · cases hjudged

/-- **The window after an activation starts with it**: an error that is expected at some time is
expected at all earlier times since the activation. -/
theorem tolerated_of_between {scenario : ReconnectScenario} {active failed failed' : Instant}
    (ha : active ≤ failed') (hf : failed' ≤ failed) (hleap : ¬ active.InLeapSecond)
    (hleap' : ¬ failed'.InLeapSecond) (hleap'' : ¬ failed.InLeapSecond)
    (h : tolerated scenario (some active) (some failed) = true) :
    tolerated scenario (some active) (some failed') = true := by
  cases scenario with
  | killNode => cases h
  | killNetwork =>
    simp only [tolerated, Bool.and_eq_true, decide_eq_true_eq] at h ⊢
    exact ⟨ha, Int.le_trans (Instant.since_mono hleap hleap' hleap'' hf) h.2⟩

/-- **The seconds that an attempt is said to have taken are those that passed completely**, if it did
not finish before it started. -/
theorem Check.Reconnection.finished_in_seconds {scenario : ReconnectScenario} {node : Nat}
    {before : List Entry} {start closer : Entry} {findings : List Finding} {started ended : Instant}
    (h : SaidAtClose scenario node before start closer findings)
    (hm : closer.marker = .reconnectFinished) (hs : start.timestamp = some started)
    (he : closer.timestamp = some ended) (horder : started ≤ ended)
    (hday : ended.date = started.date ∨ ¬ ended.InLeapSecond ∧ ¬ started.InLeapSecond) :
    ∃ n : Nat, findings =
        [.event (.reconnectFinished node (some n)),
         .info s!"Node {node} finished reconnect {finishedAttempts scenario before + 1} in {n} seconds"] ∧
      Instant.seconds n ≤ ended.since started ∧ ended.since started < Instant.seconds (n + 1) := by
  unfold SaidAtClose at h
  rw [hm] at h
  obtain ⟨started', ended', hs', he', hfindings⟩ := h
  cases hs.symm.trans hs'
  cases he.symm.trans he'
  have hsince : 0 ≤ ended.since started := (Instant.since_nonneg_iff hday).2 horder
  obtain ⟨n, hn⟩ := Instant.exists_secondsSince hsince
  refine ⟨n, ?_, (Instant.secondsSince_eq_iff hsince n).1 hn⟩
  rw [hfindings, hn]
  rfl

end RunAudit
