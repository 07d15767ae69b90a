/-!
This module contains the years of the proleptic Gregorian calendar: which of them are leap years,
how long their months are, and how many days come before a year or a month. Days are numbered from
the first day of year 0. The main statement is `daysBeforeYear_yearOfDay`: every day lies in exactly
the year that `yearOfDay` finds.
-/

namespace Rollup.Time

def IsLeapYear (y : Int) : Prop :=
  y % 4 = 0 ∧ (y % 100 ≠ 0 ∨ y % 400 = 0)

instance : DecidablePred IsLeapYear :=
  fun y => inferInstanceAs (Decidable (y % 4 = 0 ∧ (y % 100 ≠ 0 ∨ y % 400 = 0)))

def monthLength (y : Int) (m : Nat) : Nat :=
  match m with
  | 2 => if IsLeapYear y then 29 else 28
  | 4 | 6 | 9 | 11 => 30
  | _ => 31

theorem monthLength_le (y : Int) (m : Nat) : monthLength y m ≤ 31 := by
  unfold monthLength
  split <;> try split
  all_goals omega

theorem le_monthLength (y : Int) (m : Nat) : 28 ≤ monthLength y m := by
  unfold monthLength
  split <;> try split
  all_goals omega

def daysOfMonths (y : Int) : Nat → Nat
  | 0 => 0
  | k + 1 => daysOfMonths y k + monthLength y (k + 1)

theorem daysOfMonths_mono (y : Int) {j k : Nat} (h : j ≤ k) :
    daysOfMonths y j ≤ daysOfMonths y k := by
  induction h with
  | refl => exact Nat.le_refl _
  | step _ ih => exact Nat.le_trans ih (Nat.le_add_right _ _)

def yearLength (y : Int) : Nat :=
  if IsLeapYear y then 366 else 365

theorem daysOfMonths_twelve (y : Int) : daysOfMonths y 12 = yearLength y := by
  simp only [daysOfMonths, monthLength, yearLength]
  split <;> rfl

/--
The number of days from the first day of year 0 to that of year `y`, negative before year 0.
-/
def daysBeforeYear (y : Int) : Int :=
  365 * y + (y + 3) / 4 - (y + 99) / 100 + (y + 399) / 400

theorem daysBeforeYear_succ (y : Int) :
    daysBeforeYear (y + 1) = daysBeforeYear y + yearLength y := by
  by_cases h : IsLeapYear y
  · simp only [yearLength, if_pos h]
    unfold daysBeforeYear
    unfold IsLeapYear at h
    omega
  · simp only [yearLength, if_neg h]
    unfold daysBeforeYear
    unfold IsLeapYear at h
    omega

theorem daysBeforeYear_lt_succ (y : Int) : daysBeforeYear y < daysBeforeYear (y + 1) := by
  unfold daysBeforeYear
  omega

theorem daysBeforeYear_mono {y z : Int} (h : y ≤ z) : daysBeforeYear y ≤ daysBeforeYear z := by
  unfold daysBeforeYear
  omega

/--
The year of day `n`. There are 146097 days in 400 years, so the mean year is off by one at most.
-/
def yearOfDay (n : Int) : Int :=
  let y := 400 * n / 146097
  if n < daysBeforeYear y then y - 1
  else if daysBeforeYear (y + 1) ≤ n then y + 1
  else y

theorem daysBeforeYear_yearOfDay (n : Int) :
    daysBeforeYear (yearOfDay n) ≤ n ∧ n < daysBeforeYear (yearOfDay n + 1) := by
  unfold yearOfDay
  simp only
  split
  · rw [Int.sub_add_cancel]
    constructor <;> unfold daysBeforeYear at * <;> omega
  · split
    · constructor <;> unfold daysBeforeYear at * <;> omega
    · constructor <;> unfold daysBeforeYear at * <;> omega

theorem yearOfDay_eq {n y : Int} (lo : daysBeforeYear y ≤ n) (hi : n < daysBeforeYear (y + 1)) :
    yearOfDay n = y := by
  have ⟨lo', hi'⟩ := daysBeforeYear_yearOfDay n
  apply Int.le_antisymm
  · apply Int.le_of_not_gt
    intro h
    have := daysBeforeYear_mono (show y + 1 ≤ yearOfDay n by omega)
    omega
  · apply Int.le_of_not_gt
    intro h
    have := daysBeforeYear_mono (show yearOfDay n + 1 ≤ y by omega)
    omega

/--
The number of whole months of year `y`, at most `k`, that are over on day `r` of the year (counted
from 0).
-/
def monthsOver (y : Int) (r : Nat) : Nat → Nat
  | 0 => 0
  | k + 1 => if daysOfMonths y (k + 1) ≤ r then k + 1 else monthsOver y r k

theorem monthsOver_le (y : Int) (r k : Nat) : monthsOver y r k ≤ k := by
  induction k with
  | zero => exact Nat.le_refl _
  | succ k ih =>
    unfold monthsOver
    split <;> omega

theorem daysOfMonths_monthsOver_le (y : Int) (r k : Nat) :
    daysOfMonths y (monthsOver y r k) ≤ r := by
  induction k with
  | zero => exact Nat.zero_le _
  | succ k ih =>
    unfold monthsOver
    split
    · assumption
    · exact ih

theorem lt_daysOfMonths_monthsOver (y : Int) (r k : Nat) (h : r < daysOfMonths y (k + 1)) :
    r < daysOfMonths y (monthsOver y r k + 1) := by
  induction k with
  | zero => exact h
  | succ k ih =>
    unfold monthsOver
    split
    · exact h
    · apply ih
      omega

theorem monthsOver_eq {y : Int} {r k m : Nat} (hm : m ≤ k) (lo : daysOfMonths y m ≤ r)
    (hi : r < daysOfMonths y (m + 1)) : monthsOver y r k = m := by
  have h : r < daysOfMonths y (k + 1) := Nat.lt_of_lt_of_le hi (daysOfMonths_mono y (by omega))
  have lo' := daysOfMonths_monthsOver_le y r k
  have hi' := lt_daysOfMonths_monthsOver y r k h
  apply Nat.le_antisymm
  · apply Nat.le_of_not_gt
    intro hlt
    have := daysOfMonths_mono y (show m + 1 ≤ monthsOver y r k by omega)
    omega
  · apply Nat.le_of_not_gt
    intro hlt
    have := daysOfMonths_mono y (show monthsOver y r k + 1 ≤ m by omega)
    omega

end Rollup.Time
