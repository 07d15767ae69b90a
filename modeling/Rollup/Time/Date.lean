import Rollup.Time.Year

/-!
This module contains the representable calendar dates and their arithmetic. A date is equally a
year, month and day, and a day number; `dayNumber_ofDayNumber?` and `ofDayNumber?_dayNumber` say
that the two views determine each other.
-/

namespace Rollup.Time

def minYear : Int := -262143

def maxYear : Int := 262142

/--
A date of the proleptic Gregorian calendar within the representable years. Months and days count
from 1.
-/
structure Date where
  year : Int
  month : Nat
  day : Nat
  year_mem : minYear ≤ year ∧ year ≤ maxYear
  month_mem : 1 ≤ month ∧ month ≤ 12
  day_mem : 1 ≤ day ∧ day ≤ monthLength year month
deriving DecidableEq

namespace Date

theorem ext_fields {a b : Date} (year : a.year = b.year) (month : a.month = b.month)
    (day : a.day = b.day) : a = b := by
  cases a
  cases b
  simp_all

def of? (year : Int) (month day : Nat) : Option Date :=
  if h : (minYear ≤ year ∧ year ≤ maxYear) ∧ (1 ≤ month ∧ month ≤ 12)
      ∧ (1 ≤ day ∧ day ≤ monthLength year month) then
    some ⟨year, month, day, h.1, h.2.1, h.2.2⟩
  else
    none

def dayNumber (d : Date) : Int :=
  daysBeforeYear d.year + daysOfMonths d.year (d.month - 1) + (d.day - 1 : Nat)

/--
What is left of a day number after its year and its month is a day of that month.
-/
theorem day_mem_ofDay (n : Int) :
    let y := yearOfDay n
    let r := (n - daysBeforeYear y).toNat
    let k := monthsOver y r 11
    1 ≤ r - daysOfMonths y k + 1 ∧ r - daysOfMonths y k + 1 ≤ monthLength y (k + 1) := by
  intro y r k
  have lo : daysBeforeYear y ≤ n := (daysBeforeYear_yearOfDay n).1
  have hi : n < daysBeforeYear (y + 1) := (daysBeforeYear_yearOfDay n).2
  have hr : r < daysOfMonths y 12 := by
    rw [daysBeforeYear_succ] at hi
    rw [daysOfMonths_twelve]
    omega
  have le : daysOfMonths y k ≤ r := daysOfMonths_monthsOver_le y r 11
  have lt : r < daysOfMonths y k + monthLength y (k + 1) := lt_daysOfMonths_monthsOver y r 11 hr
  clear_value k r y
  omega

def ofDayNumber? (n : Int) : Option Date :=
  let y := yearOfDay n
  let r := (n - daysBeforeYear y).toNat
  let k := monthsOver y r 11
  if h : minYear ≤ y ∧ y ≤ maxYear then
    some {
      year := y
      month := k + 1
      day := r - daysOfMonths y k + 1
      year_mem := h
      month_mem := ⟨Nat.le_add_left 1 k, Nat.succ_le_succ (monthsOver_le y r 11)⟩
      day_mem := day_mem_ofDay n
    }
  else
    none

theorem daysOfMonths_month_le (d : Date) :
    daysOfMonths d.year (d.month - 1) + d.day ≤ daysOfMonths d.year d.month := by
  have ⟨pos, _⟩ := d.month_mem
  have ⟨_, day_le⟩ := d.day_mem
  obtain ⟨k, hk⟩ : ∃ k, d.month = k + 1 := ⟨d.month - 1, by omega⟩
  rw [hk] at day_le ⊢
  rw [daysOfMonths, Nat.add_sub_cancel]
  omega

theorem dayNumber_mem_year (d : Date) :
    daysBeforeYear d.year ≤ d.dayNumber ∧ d.dayNumber < daysBeforeYear (d.year + 1) := by
  have ⟨_, month_le⟩ := d.month_mem
  have ⟨day_pos, _⟩ := d.day_mem
  have h := daysOfMonths_month_le d
  have h12 := daysOfMonths_mono d.year month_le
  rw [daysOfMonths_twelve] at h12
  rw [daysBeforeYear_succ]
  unfold dayNumber
  omega

theorem yearOfDay_dayNumber (d : Date) : yearOfDay d.dayNumber = d.year :=
  yearOfDay_eq (dayNumber_mem_year d).1 (dayNumber_mem_year d).2

theorem ofDayNumber?_dayNumber (d : Date) : ofDayNumber? d.dayNumber = some d := by
  have ⟨month_pos, month_le⟩ := d.month_mem
  have ⟨day_pos, _⟩ := d.day_mem
  have hfit := daysOfMonths_month_le d
  have hr : (d.dayNumber - daysBeforeYear d.year).toNat
      = daysOfMonths d.year (d.month - 1) + (d.day - 1) := by
    unfold dayNumber
    omega
  have hk : monthsOver d.year (daysOfMonths d.year (d.month - 1) + (d.day - 1)) 11
      = d.month - 1 := by
    apply monthsOver_eq
    · omega
    · omega
    · rw [Nat.sub_add_cancel month_pos]
      omega
  unfold ofDayNumber?
  simp only [yearOfDay_dayNumber, hr, hk]
  rw [dif_pos d.year_mem]
  apply congrArg some
  apply ext_fields
  · rfl
  · simp only
    omega
  · simp only
    omega

theorem dayNumber_ofDayNumber? {n : Int} {d : Date} (h : ofDayNumber? n = some d) :
    d.dayNumber = n := by
  have ⟨lo, hi⟩ := daysBeforeYear_yearOfDay n
  unfold ofDayNumber? at h
  simp only at h
  split at h
  · cases h
    have := daysOfMonths_monthsOver_le (yearOfDay n) (n - daysBeforeYear (yearOfDay n)).toNat 11
    unfold dayNumber
    simp only [Nat.add_sub_cancel]
    omega
  · cases h

theorem dayNumber_injective {a b : Date} (h : a.dayNumber = b.dayNumber) : a = b := by
  apply Option.some.inj
  rw [← ofDayNumber?_dayNumber a, ← ofDayNumber?_dayNumber b, h]

theorem ofDayNumber?_eq_none_iff (n : Int) :
    ofDayNumber? n = none ↔ n < daysBeforeYear minYear ∨ daysBeforeYear (maxYear + 1) ≤ n := by
  have ⟨lo, hi⟩ := daysBeforeYear_yearOfDay n
  unfold ofDayNumber?
  simp only
  split
  · next h =>
    have := daysBeforeYear_mono h.1
    have := daysBeforeYear_mono (show yearOfDay n + 1 ≤ maxYear + 1 by omega)
    simp only [reduceCtorEq, false_iff]
    omega
  · next h =>
    simp only [true_iff]
    rcases Int.lt_or_le (yearOfDay n) minYear with hlt | hle
    · have := daysBeforeYear_mono (show yearOfDay n + 1 ≤ minYear by omega)
      omega
    · have := daysBeforeYear_mono (show maxYear + 1 ≤ yearOfDay n by omega)
      omega

def monthStart (d : Date) : Date :=
  { d with day := 1, day_mem := ⟨Nat.le_refl 1, by have := d.day_mem; omega⟩ }

def yearStart (d : Date) : Date :=
  { d with
    month := 1
    day := 1
    month_mem := by decide
    day_mem := ⟨Nat.le_refl 1, by have := le_monthLength d.year 1; omega⟩ }

def daysInMonth (d : Date) : Nat :=
  monthLength d.year d.month

def monthIndex (d : Date) : Int :=
  d.year * 12 + (d.month - 1 : Nat)

/--
The date `n` months after `d`, if it is representable. The day becomes the last one of a month that
is too short for it.
-/
def addMonths? (d : Date) (n : Int) : Option Date :=
  let i := d.monthIndex + n
  let m := (i % 12).toNat + 1
  if h : minYear ≤ i / 12 ∧ i / 12 ≤ maxYear then
    some {
      year := i / 12
      month := m
      day := min d.day (monthLength (i / 12) m)
      year_mem := h
      month_mem := by omega
      day_mem := by
        have := d.day_mem
        have := le_monthLength (i / 12) m
        omega
    }
  else
    none

theorem monthIndex_addMonths? {d e : Date} {n : Int} (h : d.addMonths? n = some e) :
    e.monthIndex = d.monthIndex + n := by
  unfold addMonths? at h
  simp only at h
  split at h
  · cases h
    simp only [monthIndex, Nat.add_sub_cancel]
    omega
  · cases h

theorem addMonths?_zero (d : Date) : d.addMonths? 0 = some d := by
  have ⟨pos, le⟩ := d.month_mem
  have ⟨_, day_le⟩ := d.day_mem
  have hy : (d.monthIndex + 0) / 12 = d.year := by
    unfold monthIndex
    omega
  have hm : ((d.monthIndex + 0) % 12).toNat + 1 = d.month := by
    unfold monthIndex
    omega
  unfold addMonths?
  simp only [hy, hm]
  rw [dif_pos d.year_mem]
  apply congrArg some
  apply ext_fields
  · rfl
  · rfl
  · simp only
    omega

end Date

end Rollup.Time
