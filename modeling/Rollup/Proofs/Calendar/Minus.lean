import Rollup.Proofs.Calendar.Back
import Rollup.Proofs.Calendar.Forward
import Rollup.Proofs.Calendar.Measured

/-!
This module contains steps back from instants outside of leap seconds. Such a step leads exactly as
many units back as it should and keeps what the instant is past the start of its unit. It fails
exactly if the unit that it would lead to starts before all representable instants, which is said on
a calendar that has no first year.
-/

namespace Rollup

open Rollup.Time

namespace Time

theorem daysOfMonths_lt_yearLength {y : Int} {m : Nat} (hm : m < 12) :
    daysOfMonths y m < yearLength y := by
  have hmono := daysOfMonths_mono y (show m + 1 ≤ 12 by omega)
  have hlength := le_monthLength y (m + 1)
  rw [daysOfMonths_twelve, daysOfMonths] at hmono
  omega

namespace Date

variable {d e : Date} {n : Int}

theorem day_addMonths?_eq_min (h : d.addMonths? n = some e) : e.day = min d.day e.daysInMonth := by
  unfold addMonths? at h
  simp only at h
  split at h
  · cases h
    rfl
  · cases h

theorem monthIndex_lt_of_addMonths?_neg_eq_none (hn : 0 ≤ n) (h : d.addMonths? (-n) = none) :
    d.monthIndex - n < minYear * 12 := by
  have := d.year_mem
  have := d.month_mem
  unfold addMonths? at h
  simp only at h
  split at h
  · cases h
  · next hout =>
    unfold monthIndex at *
    omega

end Date

end Time

namespace Resolution

variable {r : Resolution} {a b : Instant} {j k : Int} {n : Nat} {e : CounterError}

/--
The second in which the unit with a number starts, on a calendar without a first and a last year.
-/
def startSecond (r : Resolution) (k : Int) : Int :=
  match r with
  | minute => k * 60
  | hour => k * 3600
  | day => k * 86400
  | month => (daysBeforeYear (k / 12) + daysOfMonths (k / 12) (k % 12).toNat) * 86400
  | year => daysBeforeYear k * 86400

theorem startSecond_index (r : Resolution) (a : Instant) :
    r.startSecond (r.index a) = (r.floor a).seconds := by
  cases r with
  | minute => exact a.seconds_floorMinute.symm
  | hour => exact a.seconds_floorHour.symm
  | day => exact a.seconds_floorDay.symm
  | month =>
    have := a.date.month_mem
    have hyear : a.monthIndex / 12 = a.date.year := by
      unfold Instant.monthIndex Date.monthIndex
      omega
    have hmonth : (a.monthIndex % 12).toNat = a.date.month - 1 := by
      unfold Instant.monthIndex Date.monthIndex
      omega
    simp only [startSecond, index, floor, hyear, hmonth, Instant.floorMonth,
      Instant.seconds_midnight, Date.dayNumber_monthStart]
  | year =>
    simp only [startSecond, index, floor, Instant.year, Instant.floorYear,
      Instant.seconds_midnight, Date.dayNumber_yearStart]

theorem startSecond_lt (r : Resolution) (h : j < k) : r.startSecond j < r.startSecond k := by
  cases r with
  | minute =>
    simp only [startSecond]
    omega
  | hour =>
    simp only [startSecond]
    omega
  | day =>
    simp only [startSecond]
    omega
  | month =>
    simp only [startSecond]
    rcases Int.lt_or_eq_of_le (show j / 12 ≤ k / 12 by omega) with hyear | hyear
    · -- the month ends with its year at the latest
      have hlt := daysOfMonths_lt_yearLength (y := j / 12) (show (j % 12).toNat < 12 by omega)
      have hsucc := daysBeforeYear_succ (j / 12)
      have hmono := daysBeforeYear_mono (show j / 12 + 1 ≤ k / 12 by omega)
      omega
    · have hmono := daysOfMonths_mono (k / 12) (show (j % 12).toNat + 1 ≤ (k % 12).toNat by omega)
      have hlength := le_monthLength (k / 12) ((j % 12).toNat + 1)
      rw [daysOfMonths] at hmono
      rw [hyear]
      omega
  | year =>
    have hlt := daysBeforeYear_lt_succ j
    have hmono := daysBeforeYear_mono (show j + 1 ≤ k from h)
    simp only [startSecond]
    omega

theorem startSecond_lt_iff : r.startSecond j < r.startSecond k ↔ j < k := by
  constructor
  · intro h
    apply Int.lt_of_not_ge
    intro hge
    rcases Int.lt_or_eq_of_le hge with hlt | rfl
    · exact Int.lt_asymm h (r.startSecond_lt hlt)
    · exact Int.lt_irrefl _ h
  · exact r.startSecond_lt

theorem seconds_floor_le (r : Resolution) (a : Instant) : (r.floor a).seconds ≤ a.seconds := by
  apply Int.le_of_not_gt
  intro hlt
  exact Instant.not_lt_of_le (r.floor_le a) (Instant.lt_of_seconds_lt hlt)

theorem forall_startSecond_lt_iff :
    (∀ b : Instant, r.startSecond k < b.seconds) ↔ ∀ b : Instant, k < r.index b := by
  constructor
  · intro h b
    rw [← startSecond_lt_iff (r := r), startSecond_index]
    exact h (r.floor b)
  · intro h b
    have hfloor := r.seconds_floor_le b
    rw [← startSecond_index] at hfloor
    exact Int.lt_of_lt_of_le (r.startSecond_lt (h b)) hfloor

theorem HasSpan.lt_index_of_shift?_neg_eq_none {span : Int} (hr : r.HasSpan span)
    (ha : ¬a.IsLeap) (h : r.shift? a (-n) = none) (b : Instant) : r.index a - n < r.index b := by
  rw [hr.shift?_eq] at h
  have hne : -(n : Int) * span ≠ 0 := by
    intro hzero
    rw [hzero] at h
    cases h
  have hn : 0 ≤ (n : Int) * span := Int.mul_nonneg (Int.natCast_nonneg n) (Int.le_of_lt hr.pos)
  rw [Instant.addSeconds?_eq_none_iff ha hne, Int.neg_mul] at h
  apply Int.lt_of_not_ge
  intro hge
  -- otherwise the unit of `b` would start before the first year as well
  have hmul := Int.mul_le_mul_of_nonneg_right hge (Int.le_of_lt hr.pos)
  have hfirst := (r.floor b).le_seconds
  have hfloor := r.seconds_floor_le a
  have hlast := a.seconds_lt
  rw [hr.seconds_floor] at hfirst hfloor
  rw [Int.sub_mul] at hmul
  omega

theorem lt_index_of_shift?_neg_eq_none (ha : ¬a.IsLeap) (h : r.shift? a (-n) = none)
    (b : Instant) : r.index a - n < r.index b := by
  cases r with
  | minute => exact hasSpan_minute.lt_index_of_shift?_neg_eq_none ha h b
  | hour => exact hasSpan_hour.lt_index_of_shift?_neg_eq_none ha h b
  | day => exact hasSpan_day.lt_index_of_shift?_neg_eq_none ha h b
  | month =>
    have hnone := Option.map_eq_none_iff.1 h
    have hlt := Date.monthIndex_lt_of_addMonths?_neg_eq_none (by omega) hnone
    have := b.date.year_mem
    simp only [index, Instant.monthIndex, Date.monthIndex] at hlt ⊢
    omega
  | year =>
    rw [shift?, Int.neg_mul] at h
    have hnone := Option.map_eq_none_iff.1 h
    have hlt := Date.monthIndex_lt_of_addMonths?_neg_eq_none (by omega) hnone
    have := b.date.year_mem
    simp only [index, Instant.year, Date.monthIndex] at hlt ⊢
    omega

theorem index_minus_eq_ok (ha : ¬a.IsLeap) (h : r.minus a n = .ok b) :
    r.index b = r.index a - n := by
  have hleap : ¬(0 < n ∧ r.EndsInLeap a) := fun hends => ha hends.2.1
  rw [(index_of_minus_eq_ok h).2, if_neg hleap, Int.add_zero]

theorem minus_eq_error_iff (ha : ¬a.IsLeap) : r.minus a n = .error e
    ↔ e = .outOfRange a ∧ ∀ b : Instant, r.startSecond (r.index a - n) < b.seconds := by
  rw [forall_startSecond_lt_iff]
  constructor
  · intro h
    obtain ⟨hnone, he⟩ := stepFrom_eq_error_iff.1 h
    exact ⟨he, lt_index_of_shift?_neg_eq_none ha hnone⟩
  · rintro ⟨rfl, hlt⟩
    cases h : r.minus a n with
    | error e => rw [(stepFrom_eq_error_iff.1 h).2]
    | ok b =>
      have hb := hlt b
      rw [index_minus_eq_ok ha h] at hb
      exact absurd hb (Int.lt_irrefl _)

/--
What `a` is past the start of its unit is what `b` is past that of its own. Units of months and years
differ in length: the time of day is the same, the month of a year as well, and so is the day, or it
is the last one of a month that is too short for it.
-/
def KeepsRest (r : Resolution) (a b : Instant) : Prop :=
  match r with
  | minute | hour | day =>
    b.seconds - (r.floor b).seconds = a.seconds - (r.floor a).seconds ∧ b.nanos = a.nanos
  | month =>
    (b.second = a.second ∧ b.nanos = a.nanos) ∧ b.day = min a.day b.date.daysInMonth
  | year =>
    (b.second = a.second ∧ b.nanos = a.nanos) ∧ b.month = a.month
      ∧ b.day = min a.day b.date.daysInMonth

theorem HasSpan.seconds_sub_floor {span : Int} (hr : r.HasSpan span) (ha : ¬a.IsLeap)
    (h : r.shift? a (-n) = some b) :
    b.seconds - (r.floor b).seconds = a.seconds - (r.floor a).seconds ∧ b.nanos = a.nanos := by
  rw [hr.shift?_eq] at h
  obtain ⟨hseconds, hnanos⟩ := Instant.seconds_addSeconds? ha h
  refine ⟨?_, hnanos⟩
  rw [hr.seconds_floor, hr.seconds_floor, hr.index_eq b, hr.index_eq a, hseconds,
    Int.add_mul_ediv_right _ _ (Int.ne_of_gt hr.pos), Int.add_mul]
  omega

theorem keepsRest_of_shift?_neg (ha : ¬a.IsLeap) (h : r.shift? a (-n) = some b) :
    r.KeepsRest a b := by
  cases r with
  | minute => exact hasSpan_minute.seconds_sub_floor ha h
  | hour => exact hasSpan_hour.seconds_sub_floor ha h
  | day => exact hasSpan_day.seconds_sub_floor ha h
  | month =>
    obtain ⟨d, hd, rfl⟩ := Option.map_eq_some_iff.1 h
    exact ⟨⟨rfl, rfl⟩, Date.day_addMonths?_eq_min hd⟩
  | year =>
    obtain ⟨d, hd, rfl⟩ := Option.map_eq_some_iff.1 h
    have hindex := Date.monthIndex_addMonths? hd
    have hmonth : d.month = a.date.month := by
      have := d.month_mem
      have := a.date.month_mem
      unfold Date.monthIndex at hindex
      omega
    exact ⟨⟨rfl, rfl⟩, hmonth, Date.day_addMonths?_eq_min hd⟩

/--
A step back from an instant that is in no leap second fails exactly if the unit so many units before
starts before all representable instants. Otherwise it leads to an instant, not a later one, from
whose unit as many steps forward lead to the unit of the first one, and keeps what that one is past
the start of its unit. It is the same if the spans and the numbers of months go through words.
-/
theorem minus_leads_back (r : Resolution) (a : Instant) (ha : ¬a.IsLeap) (n : Nat) :
    (∀ e, r.minus a n = .error e
        ↔ e = .outOfRange a ∧ ∀ b : Instant, r.startSecond (r.index a - n) < b.seconds)
      ∧ (∀ b, r.minus a n = .ok b →
        b ≤ a ∧ r.forward (r.floor b) n = .ok (r.floor a) ∧ r.KeepsRest a b)
      ∧ stepFrom a (r.shiftInWords? a (-n)) = r.minus a n := by
  refine ⟨fun e => minus_eq_error_iff ha, ?_, ?_⟩
  · intro b h
    have hindex := index_minus_eq_ok ha h
    refine ⟨(index_of_minus_eq_ok h).1, ?_, keepsRest_of_shift?_neg ha (stepFrom_eq_ok_iff.1 h)⟩
    rw [forward_eq_ok_iff (r.floor_floor b), index_floor, index_floor]
    exact ⟨r.floor_floor a, by omega⟩
  · rw [shiftInWords?_eq, minus]

/--
A year before a leap day, and more days before it than the calendar has.
-/
theorem minus_leads_back_from_leapDay :
    let evening : Instant := ⟨⟨2024, 2, 29, by decide, by decide, by decide⟩, 86399, 999999999,
      by decide, by decide, by decide⟩
    let before : Instant := ⟨⟨2023, 2, 28, by decide, by decide, by decide⟩, 86399, 999999999,
      by decide, by decide, by decide⟩
    ¬evening.IsLeap
      ∧ year.minus evening 1 = .ok before
      ∧ (before ≤ evening ∧ year.forward (year.floor before) 1 = .ok (year.floor evening)
        ∧ year.KeepsRest evening before)
      ∧ day.minus evening 4294967295 = .error (.outOfRange evening) := by
  intro evening before
  have hleap : ¬evening.IsLeap := by decide
  have hminus : year.minus evening 1 = .ok before := stepFrom_eq_ok_iff.2 (by decide)
  obtain ⟨-, hok, -⟩ := minus_leads_back year evening hleap 1
  obtain ⟨herror, -, -⟩ := minus_leads_back day evening hleap 4294967295
  have hstart : day.startSecond (day.index evening - (4294967295 : Nat))
      < daysBeforeYear minYear * 86400 := by decide
  have hbefore : ∀ b : Instant, day.startSecond (day.index evening - (4294967295 : Nat)) < b.seconds :=
    fun b => Int.lt_of_lt_of_le hstart b.le_seconds
  exact ⟨hleap, hminus, hok before hminus, (herror _).2 ⟨rfl, hbefore⟩⟩

end Resolution

end Rollup
