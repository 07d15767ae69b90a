import Rollup.Bucket
import Rollup.Proofs.Calendar.Unit

/-!
This module contains the relation of the slots of a bucket to the timeline: the slots of a bucket
count consecutive units, and the next bucket goes on where they end.
-/

namespace Rollup

open Rollup.Time

namespace Bucket

theorem floor_floor (b : Bucket) (a : Instant) : b.floor (b.floor a) = b.floor a :=
  b.span.floor_floor a

theorem slots_floor (b : Bucket) (a : Instant) : b.slots (b.floor a) = b.slots a := by
  cases b <;> rfl

theorem slot_lt_slots_floor (b : Bucket) (a : Instant) : b.slot a < b.slots (b.floor a) := by
  rw [slots_floor]
  exact b.slot_lt a

theorem unit_floor_floor (b : Bucket) (a : Instant) : b.unit.floor (b.floor a) = b.floor a := by
  cases b with
  | hour =>
    apply Instant.eq_of_seconds_eq
    · simp only [unit, floor, span, Resolution.floor, Instant.seconds_floorMinute,
        Instant.minuteIndex, Instant.seconds_floorHour]
      omega
    · rfl
  | day =>
    apply Instant.eq_of_seconds_eq
    · simp only [unit, floor, span, Resolution.floor, Instant.seconds_floorHour,
        Instant.hourIndex, Instant.seconds_floorDay]
      omega
    · rfl
  | month => rfl
  | year => rfl

theorem unit_index_eq (b : Bucket) (a : Instant) :
    b.unit.index a = b.unit.index (b.floor a) + b.slot a := by
  have hseconds : a.seconds = a.date.dayNumber * 86400 + a.second := rfl
  have := a.second_lt
  cases b with
  | hour =>
    simp only [unit, Resolution.index, floor, span, Resolution.floor, Instant.minuteIndex,
      Instant.seconds_floorHour, Instant.hourIndex, slot, Instant.minute]
    omega
  | day =>
    simp only [unit, Resolution.index, floor, span, Resolution.floor, Instant.hourIndex,
      Instant.seconds_floorDay, Instant.dayIndex, slot, Instant.hour]
    omega
  | month =>
    simp only [unit, Resolution.index, floor, span, Resolution.floor, Instant.dayIndex,
      Instant.floorMonth, Instant.midnight, Date.dayNumber_monthStart, slot, Instant.day]
    unfold Date.dayNumber
    omega
  | year =>
    simp only [unit, Resolution.index, floor, span, Resolution.floor, Instant.monthIndex,
      Instant.floorYear, Instant.midnight, Date.monthIndex, Date.yearStart, slot, Instant.month]
    omega

theorem unit_index_lt {b : Bucket} {s a : Instant} (hs : b.floor s = s)
    (h : b.span.index a < b.span.index s) : b.unit.index a < b.unit.index s := by
  rw [← Resolution.lt_floor_iff, ← hs, unit_floor_floor]
  exact Resolution.lt_floor h

theorem span_index_le_of_unit_index_le {b : Bucket} {a c : Instant}
    (h : b.unit.index a ≤ b.unit.index c) :
    b.span.index a ≤ b.span.index c := by
  apply Int.le_of_not_gt
  intro hlt
  have hfloor : b.span.index (b.floor a) = b.span.index a := b.span.index_floor a
  have hunit := unit_index_lt (b.floor_floor a) (hfloor ▸ hlt)
  have hslot := b.unit_index_eq a
  omega

theorem unit_index_of_next_eq_ok {b : Bucket} {a c : Instant} (h : b.next (b.floor a) = .ok c) :
    b.unit.index c = b.unit.index (b.floor a) + b.slots a := by
  obtain ⟨hc, hi⟩ := Resolution.next_floor_eq_ok h
  cases b with
  | hour =>
    rw [← hc]
    simp only [unit, floor, span, Resolution.index, Resolution.floor, Instant.minuteIndex,
      Instant.seconds_floorHour, slots] at *
    omega
  | day =>
    rw [← hc]
    simp only [unit, floor, span, Resolution.index, Resolution.floor, Instant.hourIndex,
      Instant.seconds_floorDay, slots] at *
    omega
  | month =>
    have hday : c.date.day = 1 := by
      rw [← hc]
      rfl
    exact Date.dayNumber_eq_add_monthLength (d := a.date.monthStart) hi rfl hday
  | year =>
    have hmonth : c.date.month = 1 := by
      rw [← hc]
      rfl
    simp only [unit, floor, span, Resolution.index, Resolution.floor, Instant.monthIndex,
      Instant.year, Instant.floorYear, Instant.midnight, Date.monthIndex, Date.yearStart,
      slots, hmonth] at *
    omega

/--
An instant is counted in a slot of a bucket exactly if its unit is that far from the bucket's start.
-/
theorem floor_eq_and_slot_eq_iff {b : Bucket} {s a : Instant} {j : Nat} (hs : b.floor s = s)
    (hj : j < b.slots s) :
    b.floor a = s ∧ b.slot a = j ↔ b.unit.index a = b.unit.index s + j := by
  constructor
  · rintro ⟨hfloor, hslot⟩
    rw [unit_index_eq, hfloor, hslot]
  · intro h
    have hle : b.span.index s ≤ b.span.index a := span_index_le_of_unit_index_le (by omega)
    have hge : b.span.index a ≤ b.span.index s := by
      -- the next bucket, if there is one, starts after the last slot and so after the instant
      cases hnext : b.next (b.floor s) with
      | ok c =>
        obtain ⟨hc, hi⟩ := Resolution.next_floor_eq_ok hnext
        have hu := unit_index_of_next_eq_ok hnext
        rw [hs] at hu
        have hlt : a < b.floor c := by
          rw [← unit_floor_floor]
          apply Resolution.lt_floor
          rw [show b.floor c = c from hc]
          omega
        have := Resolution.lt_floor_iff.1 hlt
        omega
      | error e => exact (Resolution.next_floor_eq_error hnext).2 a
    have hfloor : b.floor a = s := by
      rw [← hs]
      exact Resolution.floor_eq_of_index_eq (Int.le_antisymm hge hle)
    refine ⟨hfloor, ?_⟩
    rw [unit_index_eq, hfloor] at h
    omega

/--
Each slot of a bucket stands for one of the next finer units, which has a start.
-/
theorem exists_slot_eq {b : Bucket} {s : Instant} (hs : b.floor s = s) {j : Nat}
    (hj : j < b.slots s) : ∃ a, b.floor a = s ∧ b.slot a = j ∧ b.unit.floor a = a := by
  have hnanos : s.nanos = 0 := by
    rw [← hs]
    exact b.span.nanos_floor s
  have hsecond := congrArg Instant.second hs
  have hlt := s.second_lt
  cases b with
  | hour =>
    simp only [floor, span, Resolution.floor, Instant.floorHour, slots] at hsecond hj
    have hhour : (s.second + 60 * j) / 3600 = s.second / 3600 := by omega
    let a : Instant :=
      { s with
        second := s.second + 60 * j
        second_lt := by omega
        leap_follows := by simp [hnanos, nanosPerSecond] }
    refine ⟨a, ?_, ?_, ?_⟩
    · apply Instant.ext_fields
      · rfl
      · simp only [a, floor, span, Resolution.floor, Instant.floorHour]
        rw [hhour, hsecond]
      · exact hnanos.symm
    · simp only [a, slot, Instant.minute]
      omega
    · apply Instant.ext_fields
      · rfl
      · simp only [a, unit, Resolution.floor, Instant.floorMinute]
        omega
      · exact hnanos.symm
  | day =>
    simp only [floor, span, Resolution.floor, Instant.floorDay, Instant.midnight, slots] at hsecond hj
    let a : Instant :=
      { s with
        second := 3600 * j
        second_lt := by omega
        leap_follows := by simp [hnanos, nanosPerSecond] }
    refine ⟨a, ?_, ?_, ?_⟩
    · exact Instant.ext_fields rfl hsecond hnanos.symm
    · simp only [a, slot, Instant.hour]
      omega
    · apply Instant.ext_fields
      · rfl
      · simp only [a, unit, Resolution.floor, Instant.floorHour]
        omega
      · exact hnanos.symm
  | month =>
    let day : Date := { s.date with day := j + 1, day_mem := ⟨Nat.le_add_left 1 j, hj⟩ }
    exact ⟨.midnight day, hs, rfl, rfl⟩
  | year =>
    let first : Date :=
      { s.date with
        month := j + 1
        day := 1
        month_mem := ⟨Nat.le_add_left 1 j, hj⟩
        day_mem := ⟨Nat.le_refl 1, by have := le_monthLength s.date.year (j + 1); omega⟩ }
    exact ⟨.midnight first, hs, rfl, rfl⟩

end Bucket

end Rollup
