import Rollup.Resolution

/-!
This module contains the numbering of the calendar units of a resolution along the timeline. Two
instants lie in the same unit exactly if the numbers of their units are equal, all of an earlier
unit comes before the start of a later one, and the next unit has the next number.
-/

namespace Rollup

open Rollup.Time

namespace Time.Date

theorem dayNumber_lt_of_year_lt {a b : Date} (h : a.year < b.year) : a.dayNumber < b.dayNumber := by
  have := (dayNumber_mem_year a).2
  have := (dayNumber_mem_year b).1
  have := daysBeforeYear_mono (show a.year + 1 ≤ b.year by omega)
  omega

theorem year_lt_or_month_lt {a b : Date} (h : a.monthIndex < b.monthIndex) :
    a.year < b.year ∨ a.year = b.year ∧ a.month < b.month := by
  have := a.month_mem
  have := b.month_mem
  unfold monthIndex at h
  omega

theorem dayNumber_lt_of_monthIndex_lt {a b : Date} (h : a.monthIndex < b.monthIndex) :
    a.dayNumber < b.dayNumber := by
  rcases year_lt_or_month_lt h with hy | ⟨hy, hm⟩
  · exact dayNumber_lt_of_year_lt hy
  · have := a.day_mem
    have := daysOfMonths_month_le a
    have := daysOfMonths_mono b.year (show a.month ≤ b.month - 1 by omega)
    unfold dayNumber
    rw [hy] at *
    omega

theorem eq_of_monthIndex_eq {a b : Date} (h : a.monthIndex = b.monthIndex) :
    a.year = b.year ∧ a.month = b.month := by
  have := a.month_mem
  have := b.month_mem
  unfold monthIndex at h
  omega

theorem dayNumber_monthStart (d : Date) :
    d.monthStart.dayNumber = daysBeforeYear d.year + daysOfMonths d.year (d.month - 1) := by
  simp [dayNumber, monthStart]

theorem dayNumber_monthStart_le (d : Date) : d.monthStart.dayNumber ≤ d.dayNumber := by
  rw [dayNumber_monthStart]
  unfold dayNumber
  omega

theorem dayNumber_yearStart (d : Date) : d.yearStart.dayNumber = daysBeforeYear d.year := by
  simp [dayNumber, yearStart, daysOfMonths]

theorem dayNumber_yearStart_le (d : Date) : d.yearStart.dayNumber ≤ d.dayNumber := by
  rw [dayNumber_yearStart]
  exact (dayNumber_mem_year d).1

theorem dayNumber_eq_add_monthLength {d e : Date} (h : e.monthIndex = d.monthIndex + 1)
    (hd : d.day = 1) (he : e.day = 1) : e.dayNumber = d.dayNumber + d.daysInMonth := by
  have hdm := d.month_mem
  have hem := e.month_mem
  unfold monthIndex at h
  -- only after the last month of a year does the date run on into the next year
  by_cases hlast : d.month = 12
  · have hy : e.year = d.year + 1 := by omega
    have hm : e.month = 1 := by omega
    have h12 : daysOfMonths d.year (12 - 1) + monthLength d.year 12 = yearLength d.year :=
      daysOfMonths_twelve d.year
    have h0 : daysOfMonths (d.year + 1) (1 - 1) = 0 := rfl
    simp only [dayNumber, daysInMonth, hy, hm, hd, he, hlast, daysBeforeYear_succ, h0]
    omega
  · have hy : e.year = d.year := by omega
    have hm : e.month = d.month + 1 := by omega
    obtain ⟨k, hk⟩ : ∃ k, d.month = k + 1 := ⟨d.month - 1, by omega⟩
    simp only [dayNumber, daysInMonth, hy, hm, hd, he, hk, Nat.add_sub_cancel, daysOfMonths]
    omega

theorem addMonths?_eq_none {d : Date} {n : Int} (hn : 0 ≤ n) (h : d.addMonths? n = none)
    (e : Date) : e.monthIndex < d.monthIndex + n := by
  have := d.year_mem
  have := e.year_mem
  have := e.month_mem
  unfold addMonths? at h
  simp only at h
  split at h
  · cases h
  · next hout =>
    simp only [monthIndex] at hout ⊢
    omega

theorem day_addMonths? {d e : Date} {n : Int} (hd : d.day = 1) (h : d.addMonths? n = some e) :
    e.day = 1 := by
  unfold addMonths? at h
  simp only at h
  split at h
  · cases h
    simp only [hd]
    have := le_monthLength ((d.monthIndex + n) / 12) (((d.monthIndex + n) % 12).toNat + 1)
    omega
  · cases h

end Time.Date

namespace Time.Instant

theorem lt_of_seconds_lt {a b : Instant} (h : a.seconds < b.seconds) : a < b := by
  have := a.nanos_lt
  rw [lt_def, rank, rank]
  unfold nanosPerSecond at *
  omega

theorem le_of_seconds_le {a b : Instant} (ha : a.nanos = 0) (h : a.seconds ≤ b.seconds) : a ≤ b := by
  rw [le_def, rank, rank, ha]
  unfold nanosPerSecond at *
  omega

theorem eq_of_seconds_eq {a b : Instant} (seconds : a.seconds = b.seconds)
    (nanos : a.nanos = b.nanos) : a = b := by
  apply rank_injective
  rw [rank, rank, seconds, nanos]

theorem le_of_lt {a b : Instant} (h : a < b) : a ≤ b := Int.le_of_lt h

theorem not_lt_of_le {a b : Instant} (h : a ≤ b) : ¬b < a := Int.not_lt.2 h

theorem seconds_midnight (d : Date) : (midnight d).seconds = d.dayNumber * 86400 := by
  simp [seconds, midnight]

theorem lt_midnight {a : Instant} {d : Date} (h : a.date.dayNumber < d.dayNumber) :
    a < midnight d := by
  apply lt_of_seconds_lt
  have := a.second_lt
  rw [seconds_midnight]
  unfold seconds
  omega

theorem midnight_le {d : Date} {a : Instant} (h : d.dayNumber ≤ a.date.dayNumber) :
    midnight d ≤ a := by
  apply le_of_seconds_le rfl
  rw [seconds_midnight]
  unfold seconds
  omega

theorem seconds_floorMinute (a : Instant) : a.floorMinute.seconds = a.minuteIndex * 60 := by
  simp only [seconds, floorMinute, minuteIndex]
  omega

theorem seconds_floorHour (a : Instant) : a.floorHour.seconds = a.hourIndex * 3600 := by
  simp only [seconds, floorHour, hourIndex]
  omega

theorem seconds_floorDay (a : Instant) : a.floorDay.seconds = a.dayIndex * 86400 :=
  seconds_midnight a.date

theorem dayIndex_eq (a : Instant) : a.dayIndex = a.seconds / 86400 := by
  have := a.second_lt
  unfold dayIndex seconds
  omega

theorem seconds_lt (a : Instant) : a.seconds < daysBeforeYear (maxYear + 1) * 86400 := by
  have := (Date.dayNumber_mem_year a.date).2
  have := daysBeforeYear_mono (show a.date.year + 1 ≤ maxYear + 1 by have := a.date.year_mem; omega)
  have := a.second_lt
  unfold seconds
  omega

theorem le_seconds (a : Instant) : daysBeforeYear minYear * 86400 ≤ a.seconds := by
  have := (Date.dayNumber_mem_year a.date).1
  have := daysBeforeYear_mono a.date.year_mem.1
  unfold seconds
  omega

end Time.Instant

namespace Resolution

/--
The number of the unit that contains `a`, counted along the timeline.
-/
def index (r : Resolution) (a : Instant) : Int :=
  match r with
  | minute => a.minuteIndex
  | hour => a.hourIndex
  | day => a.dayIndex
  | month => a.monthIndex
  | year => a.year

theorem unitsBetween_eq (r : Resolution) (a b : Instant) :
    r.unitsBetween a b = r.index b - r.index a := by
  cases r <;> rfl

theorem unitsSpanned_eq (r : Resolution) (a b : Instant) :
    r.unitsSpanned a b = r.index b - r.index a + 1 := by
  rw [unitsSpanned, unitsBetween_eq]

theorem nanos_floor (r : Resolution) (a : Instant) : (r.floor a).nanos = 0 := by
  cases r <;> rfl

/--
The units of a resolution are spans of one number of seconds.
-/
structure HasSpan (r : Resolution) (span : Int) : Prop where
  pos : 0 < span
  index_eq (a : Instant) : r.index a = a.seconds / span
  seconds_floor (a : Instant) : (r.floor a).seconds = r.index a * span
  shift?_eq (a : Instant) (n : Int) : r.shift? a n = a.addSeconds? (n * span)

theorem hasSpan_minute : HasSpan minute 60 where
  pos := by decide
  index_eq _ := rfl
  seconds_floor a := a.seconds_floorMinute
  shift?_eq _ _ := rfl

theorem hasSpan_hour : HasSpan hour 3600 where
  pos := by decide
  index_eq _ := rfl
  seconds_floor a := a.seconds_floorHour
  shift?_eq _ _ := rfl

theorem hasSpan_day : HasSpan day 86400 where
  pos := by decide
  index_eq a := a.dayIndex_eq
  seconds_floor a := a.seconds_floorDay
  shift?_eq _ _ := rfl

namespace HasSpan

variable {r : Resolution} {span : Int} {a b : Instant}

theorem index_floor (hr : r.HasSpan span) (a : Instant) : r.index (r.floor a) = r.index a := by
  rw [hr.index_eq (r.floor a), hr.seconds_floor, Int.mul_ediv_cancel _ (Int.ne_of_gt hr.pos)]

theorem floor_le (hr : r.HasSpan span) (a : Instant) : r.floor a ≤ a := by
  apply Instant.le_of_seconds_le (r.nanos_floor a)
  rw [hr.seconds_floor, hr.index_eq]
  exact Int.ediv_mul_le a.seconds (Int.ne_of_gt hr.pos)

theorem lt_floor (hr : r.HasSpan span) (h : r.index a < r.index b) : a < r.floor b := by
  apply Instant.lt_of_seconds_lt
  rw [hr.seconds_floor]
  rw [hr.index_eq a] at h
  exact Int.lt_mul_of_ediv_lt hr.pos h

theorem floor_eq_of_index_eq (hr : r.HasSpan span) (h : r.index a = r.index b) :
    r.floor a = r.floor b := by
  apply Instant.eq_of_seconds_eq
  · rw [hr.seconds_floor, hr.seconds_floor, h]
  · rw [nanos_floor, nanos_floor]

end HasSpan

@[simp]
theorem index_floor (r : Resolution) (a : Instant) : r.index (r.floor a) = r.index a := by
  cases r with
  | minute => exact hasSpan_minute.index_floor a
  | hour => exact hasSpan_hour.index_floor a
  | day => rfl
  | month => rfl
  | year => rfl

theorem floor_le (r : Resolution) (a : Instant) : r.floor a ≤ a := by
  cases r with
  | minute => exact hasSpan_minute.floor_le a
  | hour => exact hasSpan_hour.floor_le a
  | day => exact hasSpan_day.floor_le a
  | month => exact Instant.midnight_le (Date.dayNumber_monthStart_le a.date)
  | year => exact Instant.midnight_le (Date.dayNumber_yearStart_le a.date)

theorem lt_floor {r : Resolution} {a b : Instant} (h : r.index a < r.index b) : a < r.floor b := by
  cases r with
  | minute => exact hasSpan_minute.lt_floor h
  | hour => exact hasSpan_hour.lt_floor h
  | day => exact hasSpan_day.lt_floor h
  | month =>
    apply Instant.lt_midnight
    exact Date.dayNumber_lt_of_monthIndex_lt (b := b.date.monthStart) h
  | year =>
    apply Instant.lt_midnight
    exact Date.dayNumber_lt_of_year_lt (b := b.date.yearStart) h

theorem floor_eq_of_index_eq {r : Resolution} {a b : Instant} (h : r.index a = r.index b) :
    r.floor a = r.floor b := by
  cases r with
  | minute => exact hasSpan_minute.floor_eq_of_index_eq h
  | hour => exact hasSpan_hour.floor_eq_of_index_eq h
  | day => exact hasSpan_day.floor_eq_of_index_eq h
  | month =>
    have ⟨hy, hm⟩ := Date.eq_of_monthIndex_eq h
    exact congrArg Instant.midnight (Date.ext_fields hy hm rfl)
  | year => exact congrArg Instant.midnight (Date.ext_fields h rfl rfl)

theorem floor_eq_iff {r : Resolution} {a b : Instant} :
    r.floor a = r.floor b ↔ r.index a = r.index b := by
  constructor
  · intro h
    rw [← index_floor, h, index_floor]
  · exact floor_eq_of_index_eq

@[simp]
theorem floor_floor (r : Resolution) (a : Instant) : r.floor (r.floor a) = r.floor a := by
  rw [floor_eq_iff, index_floor]

theorem index_mono {r : Resolution} {a b : Instant} (h : a ≤ b) : r.index a ≤ r.index b := by
  apply Int.le_of_not_gt
  intro hlt
  exact Instant.not_lt_of_le (Instant.le_trans (r.floor_le a) h) (lt_floor hlt)

theorem floor_le_iff {r : Resolution} {a b : Instant} :
    r.floor a ≤ r.floor b ↔ r.index a ≤ r.index b := by
  constructor
  · intro h
    have := index_mono (r := r) h
    rwa [index_floor, index_floor] at this
  · intro h
    rcases Int.lt_or_eq_of_le h with hlt | heq
    · apply Instant.le_trans (r.floor_le a)
      exact Instant.le_of_lt (lt_floor hlt)
    · rw [floor_eq_of_index_eq heq]
      exact Instant.le_refl _

@[simp]
theorem year_floor (r : Resolution) (a : Instant) : (r.floor a).year = a.year := by
  cases r <;> rfl

theorem year_le_of_index_le {r : Resolution} {a b : Instant} (h : r.index a ≤ r.index b) :
    a.year ≤ b.year := by
  have hyear : year.index (r.floor a) ≤ year.index (r.floor b) := index_mono (floor_le_iff.2 h)
  rwa [index, index, year_floor, year_floor] at hyear

theorem lt_floor_iff {r : Resolution} {a b : Instant} :
    a < r.floor b ↔ r.index a < r.index b := by
  constructor
  · intro h
    apply Int.lt_of_not_ge
    intro hge
    exact Instant.not_lt_of_le (Instant.le_trans (floor_le_iff.2 hge) (r.floor_le a)) h
  · exact lt_floor

theorem not_isLeap_floor (r : Resolution) (a : Instant) : ¬(r.floor a).IsLeap := by
  unfold Instant.IsLeap
  rw [nanos_floor]
  decide

theorem floor_eq_self {r : Resolution} {a : Instant} (seconds : (r.floor a).seconds = a.seconds)
    (nanos : a.nanos = 0) : r.floor a = a :=
  Instant.eq_of_seconds_eq seconds (by rw [nanos_floor, nanos])

-- The start of a unit never lies in a leap second, so adding seconds to it is exact.
theorem seconds_addSeconds?_floor {r : Resolution} {a b : Instant} {n : Int}
    (h : (r.floor a).addSeconds? n = some b) :
    b.seconds = (r.floor a).seconds + n ∧ b.nanos = 0 := by
  have ⟨hs, hn⟩ := Instant.seconds_addSeconds? (r.not_isLeap_floor a) h
  exact ⟨hs, hn.trans (r.nanos_floor a)⟩

theorem seconds_lt_of_addSeconds?_floor_eq_none {r : Resolution} {a : Instant} {n : Int}
    (hn : 0 < n) (h : (r.floor a).addSeconds? n = none) (b : Instant) :
    b.seconds < (r.floor a).seconds + n := by
  have := b.seconds_lt
  have := Instant.le_seconds (r.floor a)
  rw [Instant.addSeconds?_eq_none_iff (r.not_isLeap_floor a) (by omega)] at h
  omega

namespace HasSpan

variable {r : Resolution} {span : Int} {a b : Instant}

theorem shift?_floor_eq_some (hr : r.HasSpan span) (h : r.shift? (r.floor a) 1 = some b) :
    r.floor b = b ∧ r.index b = r.index a + 1 := by
  rw [hr.shift?_eq, Int.one_mul] at h
  obtain ⟨hs, hn⟩ := seconds_addSeconds?_floor h
  have hs : b.seconds = (r.index a + 1) * span := by
    rw [hs, hr.seconds_floor, Int.add_mul, Int.one_mul]
  have hindex : r.index b = r.index a + 1 := by
    rw [hr.index_eq b, hs, Int.mul_ediv_cancel _ (Int.ne_of_gt hr.pos)]
  refine ⟨floor_eq_self ?_ hn, hindex⟩
  rw [hr.seconds_floor, hindex, hs]

theorem shift?_floor_eq_none (hr : r.HasSpan span) (h : r.shift? (r.floor a) 1 = none)
    (b : Instant) : r.index b ≤ r.index a := by
  rw [hr.shift?_eq, Int.one_mul] at h
  have hb := seconds_lt_of_addSeconds?_floor_eq_none hr.pos h b
  apply Int.le_of_lt_add_one
  rw [hr.index_eq b]
  apply Int.ediv_lt_of_lt_mul hr.pos
  rwa [Int.add_mul, Int.one_mul, ← hr.seconds_floor]

end HasSpan

theorem shift?_floor_eq_some {r : Resolution} {a b : Instant}
    (h : r.shift? (r.floor a) 1 = some b) : r.floor b = b ∧ r.index b = r.index a + 1 := by
  cases r with
  | minute => exact hasSpan_minute.shift?_floor_eq_some h
  | hour => exact hasSpan_hour.shift?_floor_eq_some h
  | day => exact hasSpan_day.shift?_floor_eq_some h
  | month =>
    obtain ⟨d, hd, rfl⟩ := Option.map_eq_some_iff.1 h
    have hday : d.day = 1 := Date.day_addMonths? rfl hd
    have hi := Date.monthIndex_addMonths? hd
    exact ⟨congrArg Instant.midnight (Date.ext_fields rfl rfl hday.symm), hi⟩
  | year =>
    obtain ⟨d, hd, rfl⟩ := Option.map_eq_some_iff.1 h
    have hday : d.day = 1 := Date.day_addMonths? rfl hd
    have hi := Date.monthIndex_addMonths? hd
    have := d.month_mem
    -- twelve months after the first month of a year is the first month again
    simp only [Date.monthIndex, floor, Instant.floorYear, Instant.midnight, Date.yearStart] at hi
    have hmonth : d.month = 1 := by omega
    refine ⟨congrArg Instant.midnight (Date.ext_fields rfl hmonth.symm hday.symm), ?_⟩
    simp only [index, Instant.year]
    omega

theorem shift?_floor_eq_none {r : Resolution} {a : Instant} (h : r.shift? (r.floor a) 1 = none)
    (b : Instant) : r.index b ≤ r.index a := by
  cases r with
  | minute => exact hasSpan_minute.shift?_floor_eq_none h b
  | hour => exact hasSpan_hour.shift?_floor_eq_none h b
  | day => exact hasSpan_day.shift?_floor_eq_none h b
  | month =>
    have hb := Date.addMonths?_eq_none (by decide) (Option.map_eq_none_iff.1 h) b.date
    exact Int.le_of_lt_add_one hb
  | year =>
    have hb := Date.addMonths?_eq_none (by decide) (Option.map_eq_none_iff.1 h) b.date
    have := b.date.month_mem
    simp only [Date.monthIndex, floor, Instant.floorYear, Instant.midnight, Date.yearStart] at hb
    simp only [index, Instant.year]
    omega

theorem next_floor_eq_ok {r : Resolution} {a b : Instant} (h : r.next (r.floor a) = .ok b) :
    r.floor b = b ∧ r.index b = r.index a + 1 :=
  shift?_floor_eq_some (stepFrom_eq_ok_iff.1 h)

theorem next_floor_eq_error {r : Resolution} {a : Instant} {e : CounterError}
    (h : r.next (r.floor a) = .error e) :
    e = .outOfRange (r.floor a) ∧ ∀ b, r.index b ≤ r.index a := by
  obtain ⟨hnone, he⟩ := stepFrom_eq_error_iff.1 h
  exact ⟨he, shift?_floor_eq_none hnone⟩

-- The start of a unit is its own floor, so what holds of floors holds of unit starts.
section Start

variable {r : Resolution} {a s t : Instant}

theorem le_iff_index_le (hs : r.floor s = s) : s ≤ a ↔ r.index s ≤ r.index a := by
  constructor
  · exact index_mono
  · intro h
    rw [← hs]
    exact Instant.le_trans (floor_le_iff.2 h) (r.floor_le a)

theorem lt_iff_index_lt (hs : r.floor s = s) : a < s ↔ r.index a < r.index s := by
  rw [← lt_floor_iff, hs]

theorem eq_iff_index_eq (hs : r.floor s = s) (ht : r.floor t = t) :
    s = t ↔ r.index s = r.index t := by
  rw [← floor_eq_iff, hs, ht]

theorem next_eq_ok (hs : r.floor s = s) (h : r.next s = .ok t) :
    r.floor t = t ∧ r.index t = r.index s + 1 := by
  rw [← hs] at h
  exact next_floor_eq_ok h

theorem index_le_of_next_eq_error {e : CounterError} (hs : r.floor s = s)
    (h : r.next s = .error e) (a : Instant) : r.index a ≤ r.index s := by
  rw [← hs] at h
  exact (next_floor_eq_error h).2 a

end Start

end Resolution

end Rollup
