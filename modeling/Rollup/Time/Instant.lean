import Rollup.Time.Date

/-!
This module contains the instants of the UTC timeline: their order, the clock fields they show and
the starts of the minute, hour, day, month and year they lie in. A leap second is the instant whose
nanoseconds run past one second within second 59 of a minute; it comes before the next minute.
-/

namespace Rollup.Time

def nanosPerSecond : Nat := 1000000000

/--
An instant: a date, the second of the day and the nanoseconds into that second. Nanoseconds of
`nanosPerSecond` and more tell a leap second, which can only follow second 59 of a minute.
-/
structure Instant where
  date : Date
  second : Nat
  nanos : Nat
  second_lt : second < 86400
  nanos_lt : nanos < 2 * nanosPerSecond
  leap_follows : nanosPerSecond ≤ nanos → second % 60 = 59
deriving DecidableEq

namespace Instant

theorem ext_fields {a b : Instant} (date : a.date = b.date) (second : a.second = b.second)
    (nanos : a.nanos = b.nanos) : a = b := by
  cases a
  cases b
  simp_all

/--
The instant with the given date and clock fields, if there is one. A leap second is written as
second 59 with `nanosPerSecond` or more nanoseconds.
-/
def of? (year : Int) (month day hour minute second nanos : Nat) : Option Instant :=
  match Date.of? year month day with
  | none => none
  | some date =>
    if h : (hour < 24 ∧ minute < 60 ∧ second < 60)
        ∧ nanos < 2 * nanosPerSecond ∧ (nanosPerSecond ≤ nanos → second = 59) then
      some {
        date
        second := hour * 3600 + minute * 60 + second
        nanos
        second_lt := by omega
        nanos_lt := h.2.1
        leap_follows := by
          intro hn
          have := h.2.2 hn
          omega
      }
    else
      none

def midnight (date : Date) : Instant where
  date
  second := 0
  nanos := 0
  second_lt := by decide
  nanos_lt := by decide
  leap_follows := by decide

def year (a : Instant) : Int := a.date.year

def month (a : Instant) : Nat := a.date.month

def day (a : Instant) : Nat := a.date.day

def hour (a : Instant) : Nat := a.second / 3600

def minute (a : Instant) : Nat := a.second / 60 % 60

theorem hour_lt (a : Instant) : a.hour < 24 := by
  have := a.second_lt
  unfold hour
  omega

theorem minute_lt (a : Instant) : a.minute < 60 := by
  unfold minute
  omega

def IsLeap (a : Instant) : Prop :=
  nanosPerSecond ≤ a.nanos

instance : DecidablePred IsLeap :=
  fun a => inferInstanceAs (Decidable (nanosPerSecond ≤ a.nanos))

/--
The number of seconds from the start of year 0 to the second of `a`, leap seconds not counted.
-/
def seconds (a : Instant) : Int :=
  a.date.dayNumber * 86400 + a.second

/--
The place of an instant on the timeline. A second has room for the leap second that may follow it.
-/
def rank (a : Instant) : Int :=
  a.seconds * (2 * nanosPerSecond : Nat) + a.nanos

theorem rank_injective {a b : Instant} (h : a.rank = b.rank) : a = b := by
  have ha := a.second_lt
  have hb := b.second_lt
  have hna := a.nanos_lt
  have hnb := b.nanos_lt
  simp only [rank, seconds, nanosPerSecond] at h hna hnb
  apply ext_fields
  · apply Date.dayNumber_injective
    omega
  · omega
  · omega

instance : LE Instant := ⟨fun a b => a.rank ≤ b.rank⟩

instance : LT Instant := ⟨fun a b => a.rank < b.rank⟩

instance (a b : Instant) : Decidable (a ≤ b) := inferInstanceAs (Decidable (a.rank ≤ b.rank))

instance (a b : Instant) : Decidable (a < b) := inferInstanceAs (Decidable (a.rank < b.rank))

theorem le_def {a b : Instant} : a ≤ b ↔ a.rank ≤ b.rank := Iff.rfl

theorem lt_def {a b : Instant} : a < b ↔ a.rank < b.rank := Iff.rfl

theorem le_refl (a : Instant) : a ≤ a := Int.le_refl _

theorem le_trans {a b c : Instant} (hab : a ≤ b) (hbc : b ≤ c) : a ≤ c := Int.le_trans hab hbc

theorem le_antisymm {a b : Instant} (hab : a ≤ b) (hba : b ≤ a) : a = b :=
  rank_injective (Int.le_antisymm hab hba)

/--
The start of the minute of `a`. A leap second belongs to the minute that it ends.
-/
def floorMinute (a : Instant) : Instant where
  date := a.date
  second := a.second / 60 * 60
  nanos := 0
  second_lt := by have := a.second_lt; omega
  nanos_lt := by decide
  leap_follows := fun h => absurd h (by decide)

def floorHour (a : Instant) : Instant where
  date := a.date
  second := a.second / 3600 * 3600
  nanos := 0
  second_lt := by have := a.second_lt; omega
  nanos_lt := by decide
  leap_follows := fun h => absurd h (by decide)

def floorDay (a : Instant) : Instant :=
  midnight a.date

def floorMonth (a : Instant) : Instant :=
  midnight a.date.monthStart

def floorYear (a : Instant) : Instant :=
  midnight a.date.yearStart

end Instant

end Rollup.Time
