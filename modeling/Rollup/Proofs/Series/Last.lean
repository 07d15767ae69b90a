import Rollup.Proofs.Calendar.Back
import Rollup.Proofs.Calendar.Forward
import Rollup.Proofs.Series.Slots

/-!
This module contains the series of the last units up to an instant. Their first instant is a step
back on the calendar away from the last one, and as many units lie between them as the step leads
back.
-/

namespace Rollup

open Rollup.Time

namespace Resolution

/--
The number of units that a query for the last `n` units gets.
-/
def unitsEnding (r : Resolution) (n : Nat) (finish : Instant) : Nat :=
  if 1 < n ∧ r.EndsInLeap finish then n - 1 else n

end Resolution

theorem Interval.ending_cases (r : Resolution) {n : Nat} (hn : 0 < n) (finish : Instant) :
    (∃ origin, Interval.ending r n finish = .error (.outOfRange origin))
      ∨ ∃ i, Interval.ending r n finish = .ok i ∧ i.finish = finish
        ∧ (r.unitsEnding n finish : Int) = r.unitsSpanned i.start finish := by
  unfold Interval.ending
  rw [if_neg (by omega)]
  cases hminus : r.minus finish (n - 1) with
  | error e =>
    left
    obtain ⟨-, rfl⟩ := stepFrom_eq_error_iff.1 hminus
    exact ⟨finish, rfl⟩
  | ok start =>
    right
    obtain ⟨hle, hindex⟩ := Resolution.index_of_minus_eq_ok hminus
    refine ⟨⟨start, finish, hle⟩, dif_pos hle, rfl, ?_⟩
    rw [Resolution.unitsSpanned_eq, hindex, Resolution.unitsEnding]
    have hpos : 0 < n - 1 ↔ 1 < n := by omega
    simp only [hpos]
    split
    · omega
    · omega

namespace Series

/--
A series of so many units, the last of which contains the end of the interval.
-/
structure EndsWith (s : Series) (units : Nat) (finish : Instant) : Prop where
  ends : s.interval.finish = finish
  count : s.counts.length = units
  last : s.instants.getLast? = some (s.resolution.floor finish)
  forward : ∃ first, s.instants.head? = some first
    ∧ s.resolution.forward first (units - 1) = .ok (s.resolution.floor finish)

namespace Covers

variable {s : Series}

theorem forward (h : s.Covers) (n : Nat) {i : Nat} (hi : i + n < s.instants.length) :
    s.resolution.forward s.instants[i] n = .ok s.instants[i + n] := by
  induction n generalizing i with
  | zero => rfl
  | succ n ih =>
    unfold Resolution.forward
    rw [h.next i (by omega)]
    simp only
    rw [ih (by omega)]
    congr 2
    omega

theorem endsWith (h : s.Covers) {units : Nat} {finish : Instant} (hfinish : s.interval.finish = finish)
    (hunits : (units : Int) = s.resolution.unitsSpanned s.interval.start finish) :
    s.EndsWith units finish := by
  subst hfinish
  have hcount : s.counts.length = units := by
    have := h.count
    omega
  refine ⟨rfl, hcount, h.last, ?_⟩
  have hlen := h.length
  have hlast := h.last
  have hpos : 0 < s.instants.length := by
    rw [List.length_pos_iff]
    intro hnil
    rw [hnil] at hlast
    cases hlast
  refine ⟨s.instants[0], ?_, ?_⟩
  · rw [List.head?_eq_getElem?, List.getElem?_eq_getElem hpos]
  · rw [List.getLast?_eq_getElem?, List.getElem?_eq_getElem (by omega)] at hlast
    rw [h.forward (units - 1) (by omega)]
    rw [← Option.some.inj hlast]
    congr 2
    omega

end Covers

end Series

end Rollup
