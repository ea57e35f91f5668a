/-!
# Instants of a run

Dates of the Gregorian calendar, carried on before its introduction, and times of day to the
nanosecond. A minute may have a leap second, the sixtieth.

* `Date.make?`, `Clock.make?`: a date or time of day from its parts, if there is one.
* `Instant.rank`: a number that orders instants; `Instant.rank_injective` says that it tells them
  apart.
* `Instant.since`: the nanoseconds from one instant to another.
-/

namespace RunAudit.Time

/-- Whether a year has a twenty-ninth of February. -/
def isLeapYear (year : Int) : Bool := year % 4 == 0 && (year % 100 != 0 || year % 400 == 0)

/-- The number of days in a month. -/
def daysInMonth (year : Int) (month : Nat) : Nat :=
  if month = 2 then (if isLeapYear year then 29 else 28)
  else if month = 4 ∨ month = 6 ∨ month = 9 ∨ month = 11 then 30
  else 31

/-- The first and the last year that dates reach. -/
def firstYear : Int := -262143

@[inherit_doc firstYear] def lastYear : Int := 262142

/-- A day of the calendar. -/
structure Date where
  year : Int
  month : Nat
  day : Nat
  year_mem : firstYear ≤ year ∧ year ≤ lastYear
  month_mem : 1 ≤ month ∧ month ≤ 12
  day_mem : 1 ≤ day ∧ day ≤ daysInMonth year month
  deriving DecidableEq

/-- A time of day. The second 60 is a leap second. -/
structure Clock where
  hour : Nat
  minute : Nat
  second : Nat
  nanosecond : Nat
  hour_lt : hour < 24
  minute_lt : minute < 60
  second_le : second ≤ 60
  nanosecond_lt : nanosecond < 1000000000
  deriving DecidableEq

/-- A day and a time of that day, in no particular time zone. -/
structure Instant where
  date : Date
  clock : Clock
  deriving DecidableEq

namespace Date

/-- The day with the given parts, if the calendar has one. -/
def make? (year : Int) (month day : Nat) : Option Date :=
  if hy : firstYear ≤ year ∧ year ≤ lastYear then
    if hm : 1 ≤ month ∧ month ≤ 12 then
      if hd : 1 ≤ day ∧ day ≤ daysInMonth year month then
        some ⟨year, month, day, hy, hm, hd⟩
      else none
    else none
  else none

/-- The days of a year before a month. -/
def daysBeforeMonth (year : Int) : Nat → Nat
  | 0 => 0
  | 1 => 0
  | month + 2 => daysBeforeMonth year (month + 1) + daysInMonth year (month + 1)

/-- The number of a day, counted from the first of January of the year 1. -/
def dayNumber (d : Date) : Int :=
  let past := d.year - 1
  365 * past + past / 4 - past / 100 + past / 400 + daysBeforeMonth d.year d.month + (d.day - 1)

/-- The place of a day among all days, with gaps at the ends of short months. -/
def rank (d : Date) : Int := (d.year * 13 + d.month) * 32 + d.day

/-- No month has more than 31 days. -/
theorem day_le (d : Date) : d.day ≤ 31 := by
  have h := d.day_mem.2
  unfold daysInMonth at h
  split at h
  · split at h <;> omega
  · split at h <;> omega

/-- **The place of a day tells it apart from all others.** -/
theorem rank_injective {a b : Date} (h : a.rank = b.rank) : a = b := by
  have ha := a.day_le
  have hb := b.day_le
  obtain ⟨ya, ma, da, _, hma, _⟩ := a
  obtain ⟨yb, mb, db, _, hmb, _⟩ := b
  simp only [rank] at *
  simp only [mk.injEq]
  omega

end Date

namespace Clock

/-- The time of day with the given parts, if there is one. -/
def make? (hour minute second nanosecond : Nat) : Option Clock :=
  if hh : hour < 24 then
    if hm : minute < 60 then
      if hs : second ≤ 60 then
        if hn : nanosecond < 1000000000 then
          some ⟨hour, minute, second, nanosecond, hh, hm, hs, hn⟩
        else none
      else none
    else none
  else none

/-- The place of a time of day among all of them. -/
def rank (c : Clock) : Nat := ((c.hour * 60 + c.minute) * 61 + c.second) * 1000000000 + c.nanosecond

/-- **The place of a time of day tells it apart from all others.** -/
theorem rank_injective {a b : Clock} (h : a.rank = b.rank) : a = b := by
  obtain ⟨ha, ma, sa, na⟩ := a
  obtain ⟨hb, mb, sb, nb⟩ := b
  simp only [rank] at h
  simp only [mk.injEq]
  omega

/-- A day has room for all times of day. -/
theorem rank_lt (c : Clock) : c.rank < 24 * 60 * 61 * 1000000000 := by
  have := c.hour_lt
  have := c.minute_lt
  have := c.second_le
  have := c.nanosecond_lt
  simp only [rank]
  omega

/-- The seconds of the day that have begun, a leap second counted with the one before it. -/
def wholeSeconds (c : Clock) : Int := (c.hour * 60 + c.minute) * 60 + min c.second 59

/-- Whether a time lies inside a leap second. -/
def inLeapSecond (c : Clock) : Bool := c.second == 60

/-- The nanoseconds past `wholeSeconds`: a second and more inside a leap second. -/
def beyondSecond (c : Clock) : Int :=
  (if c.inLeapSecond then 1000000000 else 0) + c.nanosecond

/-- The nanoseconds from `earlier` to `later` on one day. A leap second counts for a second if it
lies between the two. -/
def since (later earlier : Clock) : Int :=
  let leap : Int :=
    if earlier.wholeSeconds < later.wholeSeconds ∧ earlier.inLeapSecond then 1
    else if later.wholeSeconds < earlier.wholeSeconds ∧ later.inLeapSecond then -1
    else 0
  (later.wholeSeconds - earlier.wholeSeconds + leap) * 1000000000
    + (later.beyondSecond - earlier.beyondSecond)

end Clock

namespace Instant

/-- The place of an instant among all of them. -/
def rank (t : Instant) : Int := t.date.rank * (24 * 60 * 61 * 1000000000) + t.clock.rank

/-- **The place of an instant tells it apart from all others.** -/
theorem rank_injective {a b : Instant} (h : a.rank = b.rank) : a = b := by
  have ha := a.clock.rank_lt
  have hb := b.clock.rank_lt
  obtain ⟨da, ca⟩ := a
  obtain ⟨db, cb⟩ := b
  simp only [rank] at *
  have hd : da = db := Date.rank_injective (by omega)
  have hc : ca = cb := Clock.rank_injective (by subst hd; omega)
  rw [hd, hc]

instance : LE Instant := ⟨fun a b => a.rank ≤ b.rank⟩

instance (a b : Instant) : Decidable (a ≤ b) := inferInstanceAs (Decidable (a.rank ≤ b.rank))

/-- The nanoseconds from `earlier` to `later`, negative if `later` comes first. Days have 86400
seconds. -/
def since (later earlier : Instant) : Int :=
  (later.date.dayNumber - earlier.date.dayNumber) * 86400000000000
    + later.clock.since earlier.clock

/-- A span of whole seconds in nanoseconds. -/
def seconds (n : Nat) : Int := n * 1000000000

/-- The whole seconds from `earlier` to `later`, a fraction of a second dropped. -/
def secondsSince (later earlier : Instant) : Int := (later.since earlier).tdiv 1000000000

end Instant

end RunAudit.Time
