import Rollup.Bucket
import Rollup.Proofs.Calendar.Unit
import Rollup.Proofs.Retry.Words

/-!
This module contains the calendar in terms of dates, spans and words: starts of units built from the
fields of an instant, distances and lengths measured from one start to another, and steps whose
spans and counts have to fit in words. All of them agree with the exact arithmetic of the timeline:
no start is missing, and no word is too short for a step that ends within the representable years.
-/

namespace Rollup

open Rollup.Time

-- powers mean the same whatever else is imported
attribute [local instance (high)] instPowNat

namespace Time.Date

variable {d e : Date} {n : Nat}

/--
The number of days of the year that are over before a date.
-/
def dayOfYear (d : Date) : Nat :=
  daysOfMonths d.year (d.month - 1) + (d.day - 1)

def minusDays? (d : Date) (n : Nat) : Option Date :=
  ofDayNumber? (d.dayNumber - n)

theorem minusDays?_eq_some (h : d.dayNumber = e.dayNumber + n) : d.minusDays? n = some e := by
  rw [minusDays?, h, Int.add_sub_cancel, ofDayNumber?_dayNumber]

theorem minusDays?_day (d : Date) : d.minusDays? (d.day - 1) = some d.monthStart := by
  apply minusDays?_eq_some
  rw [dayNumber_monthStart, dayNumber]

theorem minusDays?_dayOfYear (d : Date) : d.minusDays? d.dayOfYear = some d.yearStart := by
  apply minusDays?_eq_some
  rw [dayNumber_yearStart, dayNumber, dayOfYear, Int.natCast_add, Int.add_assoc]

/--
The number of days from the start of a month to that of the next month. The last representable month
has no next one, and 31 days.
-/
def measuredDays (d : Date) : Nat :=
  match d.monthStart.addMonths? 1 with
  | some next => ((next.dayNumber - d.monthStart.dayNumber).toNat?).getD 31
  | none => 31

theorem month_eq_of_addMonths?_eq_none (h : d.addMonths? 1 = none) : d.month = 12 := by
  have := d.year_mem
  have := d.month_mem
  unfold addMonths? at h
  simp only at h
  split at h
  · cases h
  · next hout =>
    unfold monthIndex at hout
    omega

theorem measuredDays_eq (d : Date) : d.measuredDays = d.daysInMonth := by
  unfold measuredDays
  cases h : d.monthStart.addMonths? 1 with
  | some next =>
    have hnext : next.dayNumber = d.monthStart.dayNumber + d.daysInMonth :=
      dayNumber_eq_add_monthLength (monthIndex_addMonths? h) rfl (day_addMonths? rfl h)
    simp only
    rw [hnext, Int.add_comm, Int.add_sub_cancel]
    rfl
  | none =>
    have hmonth : d.month = 12 := month_eq_of_addMonths?_eq_none (d := d.monthStart) h
    rw [daysInMonth, hmonth]
    rfl

theorem addMonths?_eq_none_of_le {n : Int} (h : 2 ^ (32 : Nat) ≤ n.natAbs) :
    d.addMonths? n = none := by
  have := d.year_mem
  have := d.month_mem
  apply dif_neg
  unfold monthIndex minYear maxYear at *
  omega

end Time.Date

namespace Time.Instant

variable {a b : Instant}

theorem addSeconds?_eq_some {n : Int} (ha : ¬a.IsLeap) (seconds : b.seconds = a.seconds + n)
    (nanos : b.nanos = a.nanos) : a.addSeconds? n = some b := by
  cases h : a.addSeconds? n with
  | some c =>
    obtain ⟨hseconds, hnanos⟩ := seconds_addSeconds? ha h
    apply congrArg some
    apply eq_of_seconds_eq
    · rw [hseconds, seconds]
    · rw [hnanos, nanos]
  | none =>
    have hn : n ≠ 0 := by
      rintro rfl
      cases h
    have := b.le_seconds
    have := b.seconds_lt
    rw [addSeconds?_eq_none_iff ha hn] at h
    omega

/--
A span of `n` times `unit` seconds, if its milliseconds fit in a signed word of 64 bits.
-/
def span? (n unit : Int) : Option Int :=
  (word? 63 (n * unit * 1000).natAbs).map fun _ => n * unit

theorem addSeconds?_eq_none_of_le {n : Int} (h : 2 ^ (63 : Nat) ≤ (n * 1000).natAbs) :
    a.addSeconds? n = none := by
  have hlo := a.le_seconds
  have hhi := a.seconds_lt
  have horigin : a.origin n = a.seconds ∨ a.origin n = a.seconds + 1 := by
    unfold origin
    split
    · exact Or.inr rfl
    · exact Or.inl rfl
  have hmin : -(10 ^ (8 : Nat)) ≤ daysBeforeYear minYear := by decide
  have hmax : daysBeforeYear (maxYear + 1) ≤ 10 ^ (8 : Nat) := by decide
  rw [addSeconds?, if_neg (by omega), ofSeconds?_eq_none_iff]
  omega

theorem bind_span? (a : Instant) (n unit : Int) :
    (span? n unit).bind a.addSeconds? = a.addSeconds? (n * unit) := by
  unfold span?
  by_cases h : (n * unit * 1000).natAbs < 2 ^ (63 : Nat)
  · rw [word?_of_lt h]
    rfl
  · rw [word?_of_le (Nat.not_lt.1 h), addSeconds?_eq_none_of_le (Nat.not_lt.1 h)]
    rfl

/--
A step by months whose number is unsigned and has 32 bits. Its sign tells the direction of the step.
-/
def addMonthsInWords? (a : Instant) (n : Int) : Option Instant :=
  (word? 32 n.natAbs).bind fun (months : Nat) =>
    if 0 ≤ n then a.addMonths? months else a.addMonths? (-months)

theorem addMonthsInWords?_eq (a : Instant) (n : Int) : a.addMonthsInWords? n = a.addMonths? n := by
  unfold addMonthsInWords?
  by_cases h : n.natAbs < 2 ^ (32 : Nat)
  · rw [word?_of_lt h, Option.bind_some]
    split
    · rw [Int.natAbs_of_nonneg (by omega)]
    · rw [Int.ofNat_natAbs_of_nonpos (by omega), Int.neg_neg]
  · rw [word?_of_le (Nat.not_lt.1 h), addMonths?, Date.addMonths?_eq_none_of_le (Nat.not_lt.1 h)]
    rfl

end Time.Instant

namespace Resolution

/--
The start of the unit of an instant, built from the fields of the instant: the time of day is put
together anew, and the first day of a month or a year is as many days back as are over.
-/
def floorOfFields? (r : Resolution) (a : Instant) : Option Instant :=
  match r with
  | minute => (Instant.midnight a.date).addMinutes? (a.hour * 60 + a.minute : Nat)
  | hour => (Instant.midnight a.date).addHours? a.hour
  | day => some (.midnight a.date)
  | month => (a.date.minusDays? (a.day - 1)).map .midnight
  | year => (a.date.minusDays? a.date.dayOfYear).map .midnight

theorem floorOfFields?_eq (r : Resolution) (a : Instant) :
    r.floorOfFields? a = some (r.floor a) := by
  have hleap : ¬(Instant.midnight a.date).IsLeap := not_isLeap_floor day a
  cases r with
  | minute =>
    apply Instant.addSeconds?_eq_some hleap
    · simp only [floor, Instant.seconds, Instant.floorMinute, Instant.midnight, Instant.hour,
        Instant.minute]
      omega
    · rfl
  | hour =>
    apply Instant.addSeconds?_eq_some hleap
    · simp only [floor, Instant.seconds, Instant.floorHour, Instant.midnight, Instant.hour]
      omega
    · rfl
  | day => rfl
  | month => exact congrArg (Option.map Instant.midnight) a.date.minusDays?_day
  | year => exact congrArg (Option.map Instant.midnight) a.date.minusDays?_dayOfYear

/--
The number of unit starts after the unit of `a` up to the unit of `b`, measured from one start to the
other: a span in seconds is divided by that of one unit, and months are counted through the years.
-/
def measuredBetween (r : Resolution) (a b : Instant) : Int :=
  match r with
  | minute => (b.floorMinute.seconds - a.floorMinute.seconds).tdiv 60
  | hour => (b.floorHour.seconds - a.floorHour.seconds).tdiv 3600
  | day => (b.floorDay.seconds - a.floorDay.seconds).tdiv 86400
  | month => (b.year * 12 + (b.month - 1 : Nat)) - (a.year * 12 + (a.month - 1 : Nat))
  | year => b.year - a.year

theorem HasSpan.tdiv_seconds_floor {r : Resolution} {span : Int} (hr : r.HasSpan span)
    (a b : Instant) :
    ((r.floor b).seconds - (r.floor a).seconds).tdiv span = r.index b - r.index a := by
  rw [hr.seconds_floor, hr.seconds_floor, ← Int.sub_mul,
    Int.mul_tdiv_cancel _ (Int.ne_of_gt hr.pos)]

theorem measuredBetween_eq (r : Resolution) (a b : Instant) :
    r.measuredBetween a b = r.unitsBetween a b := by
  rw [unitsBetween_eq]
  cases r with
  | minute => exact hasSpan_minute.tdiv_seconds_floor a b
  | hour => exact hasSpan_hour.tdiv_seconds_floor a b
  | day => exact hasSpan_day.tdiv_seconds_floor a b
  | month => rfl
  | year => rfl

/--
The instant `n` units after `a`, where spans and numbers of months go through words.
-/
def shiftInWords? (r : Resolution) (a : Instant) (n : Int) : Option Instant :=
  match r with
  | minute => (Instant.span? n 60).bind a.addSeconds?
  | hour => (Instant.span? n 3600).bind a.addSeconds?
  | day => (Instant.span? n 86400).bind a.addSeconds?
  | month => a.addMonthsInWords? n
  | year => a.addMonthsInWords? (n * 12)

theorem shiftInWords?_eq (r : Resolution) (a : Instant) (n : Int) :
    r.shiftInWords? a n = r.shift? a n := by
  cases r with
  | minute => exact a.bind_span? n 60
  | hour => exact a.bind_span? n 3600
  | day => exact a.bind_span? n 86400
  | month => exact a.addMonthsInWords?_eq n
  | year => exact a.addMonthsInWords?_eq (n * 12)

end Resolution

namespace Bucket

/--
The number of slots of a bucket, where the days of a month are measured.
-/
def measuredSlots (b : Bucket) (a : Instant) : Nat :=
  match b with
  | hour => 60
  | day => 24
  | month => a.date.measuredDays
  | year => 12

theorem measuredSlots_eq (b : Bucket) (a : Instant) : b.measuredSlots a = b.slots a := by
  cases b with
  | hour => rfl
  | day => rfl
  | month => exact a.date.measuredDays_eq
  | year => rfl

end Bucket

end Rollup
