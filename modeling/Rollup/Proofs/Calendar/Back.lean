import Rollup.Proofs.Calendar.Unit

/-!
This module contains steps back on the calendar. They lead as many units back as they should, with
one exception: a span back from a leap second is counted from the second after it, and where this
second is in the next unit, the step leads one unit less far.
-/

namespace Rollup

open Rollup.Time

namespace Time.Instant

variable {a b : Instant} {n : Int}

theorem seconds_addSeconds?_of_neg (hn : n < 0) (h : a.addSeconds? n = some b) :
    b.seconds = a.seconds + (if a.IsLeap then 1 else 0) + n := by
  unfold addSeconds? at h
  rw [if_neg (by omega)] at h
  rw [(seconds_ofSeconds? h).1, origin]
  simp only [hn, and_true]
  split
  · rfl
  · rw [Int.add_zero]

theorem lt_of_addSeconds?_of_neg (hn : n < -1) (h : a.addSeconds? n = some b) : b < a := by
  apply lt_of_seconds_lt
  rw [seconds_addSeconds?_of_neg (by omega) h]
  split
  · omega
  · omega

theorem lt_of_addMonths?_of_neg (hn : n < 0) (h : a.addMonths? n = some b) : b < a := by
  obtain ⟨d, hd, rfl⟩ := Option.map_eq_some_iff.1 h
  have hmonth := Date.monthIndex_addMonths? hd
  have hday : d.dayNumber < a.date.dayNumber := Date.dayNumber_lt_of_monthIndex_lt (by omega)
  apply lt_of_seconds_lt
  simp only [seconds]
  omega

end Time.Instant

namespace Resolution

/--
The instant is a leap second that ends one of the units, which are spans of seconds. A unit of months
or of years is no such span.
-/
def EndsInLeap (r : Resolution) (a : Instant) : Prop :=
  a.IsLeap ∧ match r with
    | minute => True
    | hour => a.minute = 59
    | day => a.hour = 23 ∧ a.minute = 59
    | month | year => False

instance (r : Resolution) (a : Instant) : Decidable (r.EndsInLeap a) := by
  unfold EndsInLeap
  cases r <;> infer_instance

variable {r : Resolution} {a b : Instant} {n : Nat}

theorem lt_of_shift?_neg (hn : 0 < n) (h : r.shift? a (-n) = some b) : b < a := by
  cases r with
  | minute => exact Instant.lt_of_addSeconds?_of_neg (by omega) h
  | hour => exact Instant.lt_of_addSeconds?_of_neg (by omega) h
  | day => exact Instant.lt_of_addSeconds?_of_neg (by omega) h
  | month => exact Instant.lt_of_addMonths?_of_neg (by omega) h
  | year => exact Instant.lt_of_addMonths?_of_neg (by omega) h

theorem HasSpan.index_shift?_neg {span : Int} (hr : r.HasSpan span) (hn : 0 < n)
    (h : r.shift? a (-n) = some b) :
    r.index b = (a.seconds + if a.IsLeap then 1 else 0) / span - n := by
  rw [hr.shift?_eq] at h
  have hneg : -(n : Int) * span < 0 := by
    rw [Int.neg_mul]
    exact Int.neg_neg_of_pos (Int.mul_pos (by omega) hr.pos)
  rw [hr.index_eq, Instant.seconds_addSeconds?_of_neg hneg h,
    Int.add_mul_ediv_right _ _ (Int.ne_of_gt hr.pos), Int.sub_eq_add_neg]

theorem index_shift?_neg (hn : 0 < n) (h : r.shift? a (-n) = some b) :
    r.index b = r.index a - n + if r.EndsInLeap a then 1 else 0 := by
  have hseconds : a.seconds = a.date.dayNumber * 86400 + a.second := rfl
  have hlt := a.second_lt
  have hlast := a.leap_follows
  -- the second after a leap second is in the next unit exactly if all finer fields are at their end
  cases r with
  | minute =>
    rw [hasSpan_minute.index_shift?_neg hn h, hasSpan_minute.index_eq]
    by_cases hleap : a.IsLeap
    · have := hlast hleap
      simp only [EndsInLeap, hleap, if_true, true_and]
      omega
    · simp only [EndsInLeap, hleap, if_false, false_and, Int.add_zero]
  | hour =>
    rw [hasSpan_hour.index_shift?_neg hn h, hasSpan_hour.index_eq]
    by_cases hleap : a.IsLeap
    · have := hlast hleap
      simp only [EndsInLeap, hleap, if_true, true_and, Instant.minute]
      omega
    · simp only [EndsInLeap, hleap, if_false, false_and, Int.add_zero]
  | day =>
    rw [hasSpan_day.index_shift?_neg hn h, hasSpan_day.index_eq]
    by_cases hleap : a.IsLeap
    · have := hlast hleap
      simp only [EndsInLeap, hleap, if_true, true_and, Instant.hour, Instant.minute]
      omega
    · simp only [EndsInLeap, hleap, if_false, false_and, Int.add_zero]
  | month =>
    obtain ⟨d, hd, rfl⟩ := Option.map_eq_some_iff.1 h
    have hmonth := Date.monthIndex_addMonths? hd
    simp only [EndsInLeap, index, Instant.monthIndex, and_false, if_false]
    omega
  | year =>
    obtain ⟨d, hd, rfl⟩ := Option.map_eq_some_iff.1 h
    have hmonth := Date.monthIndex_addMonths? hd
    have := d.month_mem
    have := a.date.month_mem
    simp only [Date.monthIndex] at hmonth
    simp only [EndsInLeap, index, Instant.year, and_false, if_false]
    omega

/--
The number of the unit that a step back leads to.
-/
theorem index_of_minus_eq_ok (h : r.minus a n = .ok b) :
    b ≤ a ∧ r.index b = r.index a - n + if 0 < n ∧ r.EndsInLeap a then 1 else 0 := by
  have hshift : r.shift? a (-n) = some b := stepFrom_eq_ok_iff.1 h
  rcases Nat.eq_zero_or_pos n with rfl | hn
  · have hzero : r.shift? a 0 = some a := by
      cases r with
      | minute => exact a.addSeconds?_zero
      | hour => exact a.addSeconds?_zero
      | day => exact a.addSeconds?_zero
      | month => exact a.addMonths?_zero
      | year => exact a.addMonths?_zero
    obtain rfl : a = b := Option.some.inj (hzero.symm.trans hshift)
    refine ⟨Instant.le_refl a, ?_⟩
    simp
  · refine ⟨Instant.le_of_lt (lt_of_shift?_neg hn hshift), ?_⟩
    rw [index_shift?_neg hn hshift]
    simp only [hn, true_and]

end Resolution

end Rollup
