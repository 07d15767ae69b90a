import Rollup.Time.Instant

/-!
This module contains the arithmetic of instants: moving one by an exact span or by calendar months,
and counting the unit starts that lie between two. Moving past the representable years gives `none`.
-/

namespace Rollup.Time

namespace Instant

/--
The instant that is `s` whole seconds and `nanos` nanoseconds after the start of year 0.
-/
def ofSeconds? (s : Int) (nanos : Nat) (h : nanos < nanosPerSecond) : Option Instant :=
  (Date.ofDayNumber? (s / 86400)).map fun date => {
    date
    second := (s % 86400).toNat
    nanos
    second_lt := by omega
    nanos_lt := by omega
    leap_follows := by omega
  }

theorem seconds_ofSeconds? {s : Int} {nanos : Nat} {h : nanos < nanosPerSecond} {a : Instant}
    (ha : ofSeconds? s nanos h = some a) : a.seconds = s ∧ a.nanos = nanos := by
  unfold ofSeconds? at ha
  obtain ⟨date, hdate, rfl⟩ := Option.map_eq_some_iff.1 ha
  have := Date.dayNumber_ofDayNumber? hdate
  refine ⟨?_, rfl⟩
  simp only [seconds, this]
  omega

theorem ofSeconds?_seconds (a : Instant) (h : a.nanos < nanosPerSecond) :
    ofSeconds? a.seconds a.nanos h = some a := by
  have lt := a.second_lt
  have hd : a.seconds / 86400 = a.date.dayNumber := by
    unfold seconds
    omega
  unfold ofSeconds?
  rw [hd, Date.ofDayNumber?_dayNumber]
  apply congrArg some
  apply ext_fields
  · rfl
  · simp only [seconds]
    omega
  · rfl

theorem ofSeconds?_eq_none_iff (s : Int) (nanos : Nat) (h : nanos < nanosPerSecond) :
    ofSeconds? s nanos h = none
      ↔ s < daysBeforeYear minYear * 86400 ∨ daysBeforeYear (maxYear + 1) * 86400 ≤ s := by
  unfold ofSeconds?
  rw [Option.map_eq_none_iff, Date.ofDayNumber?_eq_none_iff]
  omega

/--
The second from which a span of `n` seconds is counted. Out of a leap second, a span backwards is
counted from the second that follows.
-/
def origin (a : Instant) (n : Int) : Int :=
  if a.IsLeap ∧ n < 0 then a.seconds + 1 else a.seconds

/--
The instant `n` seconds after `a`. A span that is not zero leaves a leap second and keeps its
fraction.
-/
def addSeconds? (a : Instant) (n : Int) : Option Instant :=
  if n = 0 then
    some a
  else
    ofSeconds? (a.origin n + n) (a.nanos % nanosPerSecond) (Nat.mod_lt _ (by decide))

def addMinutes? (a : Instant) (n : Int) : Option Instant := a.addSeconds? (n * 60)

def addHours? (a : Instant) (n : Int) : Option Instant := a.addSeconds? (n * 3600)

def addDays? (a : Instant) (n : Int) : Option Instant := a.addSeconds? (n * 86400)

theorem addSeconds?_zero (a : Instant) : a.addSeconds? 0 = some a := rfl

theorem seconds_addSeconds? {a b : Instant} {n : Int} (ha : ¬a.IsLeap)
    (h : a.addSeconds? n = some b) : b.seconds = a.seconds + n ∧ b.nanos = a.nanos := by
  unfold addSeconds? at h
  split at h
  · cases h
    omega
  · have := seconds_ofSeconds? h
    unfold origin at this
    simp only [ha, false_and, if_false] at this
    refine ⟨this.1, this.2.trans (Nat.mod_eq_of_lt ?_)⟩
    exact Nat.lt_of_not_le ha

theorem addSeconds?_eq_none_iff {a : Instant} {n : Int} (ha : ¬a.IsLeap) (hn : n ≠ 0) :
    a.addSeconds? n = none ↔ a.seconds + n < daysBeforeYear minYear * 86400
      ∨ daysBeforeYear (maxYear + 1) * 86400 ≤ a.seconds + n := by
  unfold addSeconds? origin
  simp only [hn, ha, false_and, if_false]
  exact ofSeconds?_eq_none_iff _ _ _

def addMonths? (a : Instant) (n : Int) : Option Instant :=
  (a.date.addMonths? n).map fun date => { a with date }

theorem addMonths?_zero (a : Instant) : a.addMonths? 0 = some a := by
  simp only [addMonths?, Date.addMonths?_zero, Option.map_some]

def minuteIndex (a : Instant) : Int := a.seconds / 60

def hourIndex (a : Instant) : Int := a.seconds / 3600

def dayIndex (a : Instant) : Int := a.date.dayNumber

def monthIndex (a : Instant) : Int := a.date.monthIndex

/--
The number of minute starts after the minute of `a` up to the minute of `b`, negative if `b` is
earlier.
-/
def minutesBetween (a b : Instant) : Int := b.minuteIndex - a.minuteIndex

def hoursBetween (a b : Instant) : Int := b.hourIndex - a.hourIndex

def daysBetween (a b : Instant) : Int := b.dayIndex - a.dayIndex

def monthsBetween (a b : Instant) : Int := b.monthIndex - a.monthIndex

def yearsBetween (a b : Instant) : Int := b.year - a.year

end Instant

end Rollup.Time
