import Rollup.Proofs.Calendar.Unit

/-!
This module contains walks forward on the calendar, from the start of a unit to the start of a later
one. The numbers of the units tell where a walk ends: `forward_eq_ok_iff` says that it ends at the
unit whose number is greater by the steps taken, and that it ends there whenever that unit exists.
-/

namespace Rollup

open Rollup.Time

namespace Resolution

/--
The start of the unit that comes `n` units after the one that starts at `a`.
-/
def forward (r : Resolution) (a : Instant) : Nat → Except CounterError Instant
  | 0 => .ok a
  | n + 1 =>
    match r.next a with
    | .ok b => r.forward b n
    | .error e => .error e

variable {r : Resolution} {a b c s t : Instant} {m n : Nat} {e : CounterError}

theorem forward_of_next_eq_ok (h : r.next s = .ok t) : r.forward s (n + 1) = r.forward t n := by
  rw [forward, h]

theorem forward_of_next_eq_error (h : r.next s = .error e) : r.forward s (n + 1) = .error e := by
  rw [forward, h]

theorem forward_one (r : Resolution) (a : Instant) : r.forward a 1 = r.next a := by
  cases h : r.next a with
  | ok b => rw [forward_of_next_eq_ok h, forward]
  | error e => rw [forward_of_next_eq_error h]

theorem forward_add (h : r.forward s m = .ok t) : r.forward s (m + n) = r.forward t n := by
  induction m generalizing s with
  | zero =>
    obtain rfl := Except.ok.inj h
    rw [Nat.zero_add]
  | succ m ih =>
    rw [Nat.succ_add]
    cases hnext : r.next s with
    | ok u =>
      rw [forward_of_next_eq_ok hnext] at h ⊢
      exact ih h
    | error e =>
      rw [forward_of_next_eq_error hnext] at h
      cases h

theorem forward_eq_ok_iff (hs : r.floor s = s) :
    r.forward s n = .ok t ↔ r.floor t = t ∧ r.index t = r.index s + n := by
  induction n generalizing s with
  | zero =>
    rw [forward, Except.ok.injEq, Int.natCast_zero, Int.add_zero]
    constructor
    · rintro rfl
      exact ⟨hs, rfl⟩
    · rintro ⟨ht, hindex⟩
      exact (eq_iff_index_eq hs ht).2 hindex.symm
  | succ n ih =>
    cases hnext : r.next s with
    | ok u =>
      obtain ⟨hu, hindex⟩ := next_eq_ok hs hnext
      rw [forward_of_next_eq_ok hnext, ih hu, hindex, Int.natCast_succ, Int.add_right_comm,
        Int.add_assoc]
    | error e =>
      rw [forward_of_next_eq_error hnext]
      constructor
      · intro h
        cases h
      · rintro ⟨-, hindex⟩
        -- no unit comes after the one that starts at `s`
        have hlast := index_le_of_next_eq_error hs hnext t
        omega

end Resolution

end Rollup
