import Mathlib.Algebra.Ring.Nat
import Rollup.Series
import Rollup.Proofs.Calendar.Forward
import Rollup.Proofs.Calendar.Measured
import Rollup.Proofs.Calendar.Slot

/-!
This module contains the tilings of the timeline. The units of a resolution tile it up to its end,
and the units that the slots of a bucket stand for tile the bucket, so that consecutive buckets put
end to end are consecutive units.
-/

namespace Rollup

open Rollup.Time

namespace Resolution

variable {r : Resolution} {a b t : Instant} {e : CounterError}

theorem floor_eq_floor_iff_of_next_eq_ok (h : r.next (r.floor a) = .ok t) :
    r.floor b = r.floor a ↔ r.floor a ≤ b ∧ b < t := by
  obtain ⟨ht, hindex⟩ := next_floor_eq_ok h
  rw [floor_eq_iff, le_iff_index_le (r.floor_floor a), lt_iff_index_lt ht, index_floor]
  omega

theorem floor_eq_floor_iff_of_next_eq_error (h : r.next (r.floor a) = .error e) :
    r.floor b = r.floor a ↔ r.floor a ≤ b := by
  have hlast := (next_floor_eq_error h).2 b
  rw [floor_eq_iff, le_iff_index_le (r.floor_floor a), index_floor]
  omega

theorem forward_floor_eq_ok_iff {n : Nat} :
    r.forward (r.floor a) n = .ok (r.floor b) ↔ r.unitsSpanned a b = n + 1 := by
  rw [forward_eq_ok_iff (r.floor_floor a), floor_floor, and_iff_right rfl, index_floor, index_floor,
    unitsSpanned_eq]
  omega

theorem one_le_unitsSpanned (h : a ≤ b) : 1 ≤ r.unitsSpanned a b := by
  have := index_mono (r := r) h
  rw [unitsSpanned_eq]
  omega

/--
The units of a resolution tile the timeline. An instant lies in the unit that starts at its floor and
ends before the next one starts, or never if there is no next one, and the units that two instants
span are counted by the steps from the one floor to the other. It is the same if the floor is built
from the fields of the instant, the step goes through words and the distance is measured from floor
to floor.
-/
theorem units_tile (r : Resolution) (a : Instant) :
    (r.floor a ≤ a ∧ r.floor (r.floor a) = r.floor a)
      ∧ (∀ b, a ≤ b → r.floor a ≤ r.floor b)
      ∧ (∀ next, r.next (r.floor a) = .ok next → a < next ∧ r.floor next = next
        ∧ ∀ b, r.floor b = r.floor a ↔ r.floor a ≤ b ∧ b < next)
      ∧ (∀ e, r.next (r.floor a) = .error e → ∀ b, r.floor b = r.floor a ↔ r.floor a ≤ b)
      ∧ (∀ b, a ≤ b → ∃ n : Nat, r.unitsSpanned a b = n + 1
        ∧ ∀ m, r.forward (r.floor a) m = .ok (r.floor b) ↔ m = n)
      ∧ r.floorOfFields? a = some (r.floor a)
      ∧ stepFrom (r.floor a) (r.shiftInWords? (r.floor a) 1) = r.next (r.floor a)
      ∧ ∀ b, r.measuredBetween a b = r.unitsBetween a b := by
  refine ⟨⟨r.floor_le a, r.floor_floor a⟩, ?_, ?_, ?_, ?_, r.floorOfFields?_eq a, ?_,
    r.measuredBetween_eq a⟩
  · intro b h
    exact floor_le_iff.2 (index_mono h)
  · intro next h
    have hunit : a < next := ((floor_eq_floor_iff_of_next_eq_ok h).1 rfl).2
    exact ⟨hunit, (next_floor_eq_ok h).1, fun _ => floor_eq_floor_iff_of_next_eq_ok h⟩
  · intro e h b
    exact floor_eq_floor_iff_of_next_eq_error h
  · intro b h
    have hpos := one_le_unitsSpanned (r := r) h
    refine ⟨(r.unitsSpanned a b - 1).toNat, by omega, ?_⟩
    intro m
    rw [forward_floor_eq_ok_iff]
    omega
  · rw [shiftInWords?_eq, next]

/--
The month of a leap second before the first of March, and the last year.
-/
theorem units_tile_at_ends :
    let evening : Instant := ⟨⟨2024, 2, 29, by decide, by decide, by decide⟩, 86399, 1500000000,
      by decide, by decide, by decide⟩
    let march : Instant := .midnight ⟨2024, 3, 1, by decide, by decide, by decide⟩
    let last : Instant := .midnight ⟨262142, 12, 31, by decide, by decide, by decide⟩
    (evening ≤ last ∧ month.next (month.floor evening) = .ok march
        ∧ (∃ e, year.next (year.floor last) = .error e))
      ∧ month.floor evening ≤ month.floor last
      ∧ evening < march
      ∧ (year.floor march = year.floor last ↔ year.floor last ≤ march)
      ∧ ∃ n : Nat, month.unitsSpanned evening last = n + 1
        ∧ ∀ m, month.forward (month.floor evening) m = .ok (month.floor last) ↔ m = n := by
  intro evening march last
  have hle : evening ≤ last := by decide
  have hnext : month.next (month.floor evening) = .ok march :=
    stepFrom_eq_ok_iff.2 (by decide)
  have hlast : year.next (year.floor last) = .error (.outOfRange (year.floor last)) :=
    stepFrom_eq_error_iff.2 ⟨by decide, rfl⟩
  obtain ⟨-, hmono, hok, -, hspanned, -⟩ := units_tile month evening
  obtain ⟨-, -, -, herror, -⟩ := units_tile year last
  exact ⟨⟨hle, hnext, _, hlast⟩, hmono last hle, (hok march hnext).1, herror _ hlast march,
    hspanned last hle⟩

end Resolution

namespace Series

variable {r : Resolution} {s t : Instant} {e : CounterError} {i m n : Nat}

theorem head?_unitStarts (r : Resolution) (s : Instant) (n : Nat) :
    (unitStarts r s (n + 1)).head? = some s := by
  cases hnext : r.next s with
  | ok u => rw [unitStarts_of_next_eq_ok hnext, List.head?_cons]
  | error e => rw [unitStarts_of_next_eq_error hnext, List.head?_cons]

theorem unitStarts_one (r : Resolution) (s : Instant) : unitStarts r s 1 = [s] := by
  cases hnext : r.next s with
  | ok u => rw [unitStarts_of_next_eq_ok hnext, unitStarts]
  | error e => rw [unitStarts_of_next_eq_error hnext]

theorem unitStarts_add (h : r.forward s m = .ok t) :
    unitStarts r s (m + n) = unitStarts r s m ++ unitStarts r t n := by
  induction m generalizing s with
  | zero =>
    obtain rfl := Except.ok.inj h
    rw [Nat.zero_add, unitStarts, List.nil_append]
  | succ m ih =>
    rw [Nat.succ_add]
    cases hnext : r.next s with
    | ok u =>
      rw [Resolution.forward_of_next_eq_ok hnext] at h
      rw [unitStarts_of_next_eq_ok hnext, unitStarts_of_next_eq_ok hnext, ih h, List.cons_append]
    | error e =>
      rw [Resolution.forward_of_next_eq_error hnext] at h
      cases h

theorem length_unitStarts (h : r.forward s m = .ok t) : (unitStarts r s m).length = m := by
  induction m generalizing s with
  | zero => rfl
  | succ m ih =>
    cases hnext : r.next s with
    | ok u =>
      rw [Resolution.forward_of_next_eq_ok hnext] at h
      rw [unitStarts_of_next_eq_ok hnext, List.length_cons, ih h]
    | error e =>
      rw [Resolution.forward_of_next_eq_error hnext] at h
      cases h

theorem getElem?_unitStarts (h : r.forward s i = .ok t) (hi : i < n) :
    (unitStarts r s n)[i]? = some t := by
  obtain ⟨k, rfl⟩ : ∃ k, n = i + (k + 1) := ⟨n - i - 1, by omega⟩
  have hlen := length_unitStarts h
  rw [unitStarts_add h, List.getElem?_append_right (Nat.le_of_eq hlen), hlen, Nat.sub_self,
    ← List.head?_eq_getElem?, head?_unitStarts]

end Series

namespace Bucket

open Series (unitStarts)

variable {b : Bucket} {a c s : Instant} {i : Nat}

theorem unit_floor_eq_self (hs : b.floor s = s) : b.unit.floor s = s := by
  rw [← hs, unit_floor_floor]

theorem slots_pos (b : Bucket) (s : Instant) : 0 < b.slots s :=
  Nat.zero_lt_of_lt (b.slot_lt s)

theorem forward_eq_ok_iff_slot_eq (hs : b.floor s = s) (hi : i < b.slots s) :
    b.unit.forward s i = .ok a ↔ b.unit.floor a = a ∧ b.floor a = s ∧ b.slot a = i := by
  rw [Resolution.forward_eq_ok_iff (unit_floor_eq_self hs), floor_eq_and_slot_eq_iff hs hi]

theorem exists_forward_eq_ok (hs : b.floor s = s) (hi : i < b.slots s) :
    ∃ a, b.unit.forward s i = .ok a ∧ b.slot a = i ∧ b.floor a = s := by
  obtain ⟨a, hfloor, hslot, hunit⟩ := exists_slot_eq hs hi
  exact ⟨a, (forward_eq_ok_iff_slot_eq hs hi).2 ⟨hunit, hfloor, hslot⟩, hslot, hfloor⟩

/--
All slots of a bucket lead from its start to that of the next bucket, and no further where there is
no next bucket.
-/
theorem forward_slots_eq_ok_iff (hs : b.floor s = s) :
    b.unit.forward s (b.slots s) = .ok c ↔ b.next s = .ok c := by
  rw [Resolution.forward_eq_ok_iff (unit_floor_eq_self hs)]
  cases hnext : b.next s with
  | ok n =>
    rw [← hs] at hnext
    have hindex := unit_index_of_next_eq_ok hnext
    have hunit : b.unit.floor n = n := unit_floor_eq_self (Resolution.next_floor_eq_ok hnext).1
    rw [hs] at hindex
    constructor
    · rintro ⟨hc, hcindex⟩
      rw [(Resolution.eq_iff_index_eq hunit hc).2 (hindex.trans hcindex.symm)]
    · intro h
      obtain rfl := Except.ok.inj h
      exact ⟨hunit, hindex⟩
  | error e =>
    constructor
    · rintro ⟨hc, hcindex⟩
      -- without a next bucket the instant would lie in this one, beyond its last slot
      have hle : b.span.index c ≤ b.span.index s :=
        Resolution.index_le_of_next_eq_error hs hnext c
      have hge : b.span.index s ≤ b.span.index c := span_index_le_of_unit_index_le (by omega)
      have hfloor : b.floor c = s := by
        rw [← hs]
        exact Resolution.floor_eq_of_index_eq (Int.le_antisymm hle hge)
      have hslot := b.slot_lt_slots_floor c
      have hunit := b.unit_index_eq c
      rw [hfloor] at hslot hunit
      omega
    · intro h
      cases h

/--
The starts of the units that the slots of a bucket stand for.
-/
def slotStarts (b : Bucket) (s : Instant) : List Instant :=
  unitStarts b.unit s (b.slots s)

theorem getElem?_slotStarts (hs : b.floor s = s) (ha : b.floor a = s) :
    (b.slotStarts s)[b.slot a]? = some (b.unit.floor a) := by
  have hslot : b.slot a < b.slots s := by
    rw [← ha]
    exact b.slot_lt_slots_floor a
  apply Series.getElem?_unitStarts _ hslot
  rw [Resolution.forward_eq_ok_iff (unit_floor_eq_self hs), Resolution.floor_floor,
    Resolution.index_floor]
  exact ⟨rfl, (floor_eq_and_slot_eq_iff hs hslot).1 ⟨ha, rfl⟩⟩

theorem length_slotStarts (hs : b.floor s = s) : (b.slotStarts s).length = b.slots s := by
  have hpos := b.slots_pos s
  obtain ⟨last, hlast, -⟩ := exists_forward_eq_ok hs (Nat.sub_one_lt_of_lt hpos)
  have hsplit := Series.unitStarts_add (n := 1) hlast
  rw [Nat.sub_add_cancel hpos] at hsplit
  rw [slotStarts, hsplit, List.length_append, Series.length_unitStarts hlast, Series.unitStarts_one,
    List.length_singleton, Nat.sub_add_cancel hpos]

theorem flatMap_slotStarts (hs : b.floor s = s) (n : Nat) :
    (unitStarts b.span s n).flatMap b.slotStarts
      = unitStarts b.unit s ((unitStarts b.span s n).map b.slots).sum := by
  induction n generalizing s with
  | zero => rfl
  | succ n ih =>
    cases hnext : b.span.next s with
    | ok t =>
      have ht : b.floor t = t := (Resolution.next_eq_ok hs hnext).1
      rw [Series.unitStarts_of_next_eq_ok hnext, List.flatMap_cons, List.map_cons, List.sum_cons,
        ih ht, slotStarts, Series.unitStarts_add ((forward_slots_eq_ok_iff hs).2 hnext)]
    | error e =>
      rw [Series.unitStarts_of_next_eq_error hnext, List.flatMap_singleton, List.map_singleton,
        List.sum_singleton, slotStarts]

/--
The slots of a bucket tile it: stepping from its start by the units that they stand for leads through
each of them in turn and from the last one to the next bucket, or nowhere where there is no next
bucket. So the units of consecutive buckets put end to end are consecutive, and each instant lies in
the unit of its slot. It is the same if the days of a month are measured.
-/
theorem slots_tile (b : Bucket) {s : Instant} (hs : b.floor s = s) :
    (∀ i < b.slots s, ∃ a, b.unit.forward s i = .ok a ∧ b.slot a = i ∧ b.floor a = s)
      ∧ (∃ last, b.unit.forward s (b.slots s - 1) = .ok last
        ∧ ∀ c, b.unit.next last = .ok c ↔ b.next s = .ok c)
      ∧ (∀ n, (unitStarts b.span s n).flatMap b.slotStarts
        = unitStarts b.unit s ((unitStarts b.span s n).map b.slots).sum)
      ∧ (b.slotStarts s).length = b.slots s
      ∧ (∀ a, b.floor a = s → (b.slotStarts s)[b.slot a]? = some (b.unit.floor a))
      ∧ b.measuredSlots s = b.slots s := by
  have hpos := b.slots_pos s
  refine ⟨fun i hi => exists_forward_eq_ok hs hi, ?_, flatMap_slotStarts hs, length_slotStarts hs,
    fun a => getElem?_slotStarts hs, b.measuredSlots_eq s⟩
  obtain ⟨last, hlast, -⟩ := exists_forward_eq_ok hs (Nat.sub_one_lt_of_lt hpos)
  refine ⟨last, hlast, ?_⟩
  intro c
  rw [← Resolution.forward_one, ← Resolution.forward_add hlast, Nat.sub_add_cancel hpos]
  exact forward_slots_eq_ok_iff hs

/--
The last month, which has no next one.
-/
theorem slots_tile_of_last_month :
    let december : Instant := .midnight ⟨262142, 12, 1, by decide, by decide, by decide⟩
    let evening : Instant := ⟨⟨262142, 12, 31, by decide, by decide, by decide⟩, 86399, 1500000000,
      by decide, by decide, by decide⟩
    month.floor december = december
      ∧ (∃ a, month.unit.forward december 30 = .ok a ∧ month.slot a = 30
        ∧ month.floor a = december)
      ∧ (∃ last, month.unit.forward december 30 = .ok last
        ∧ ∀ c, month.unit.next last = .ok c ↔ month.next december = .ok c)
      ∧ (month.slotStarts december)[30]? = some (month.unit.floor evening) := by
  intro december evening
  have hs : month.floor december = december := by decide
  obtain ⟨hslots, hlast, -, -, hget, -⟩ := slots_tile month hs
  exact ⟨hs, hslots 30 (by decide), hlast, hget evening (by decide)⟩

end Bucket

end Rollup
