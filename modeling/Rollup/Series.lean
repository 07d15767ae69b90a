import Rollup.Count
import Rollup.Interval
import Rollup.Resolution

/-!
This module contains the answer to a range query: one count for each unit of an interval.
-/

namespace Rollup

open Rollup.Time

structure Series where
  name : String
  interval : Interval
  resolution : Resolution
  counts : List Count
deriving DecidableEq

namespace Series

def total? (s : Series) : Option Count :=
  Count.sum? s.counts

/--
At most `n` unit starts, from `first` on. They end where the next one is not representable.
-/
def unitStarts (r : Resolution) (first : Instant) : Nat → List Instant
  | 0 => []
  | n + 1 =>
    match r.next first with
    | .ok second => first :: unitStarts r second n
    | .error _ => [first]

theorem unitStarts_of_next_eq_ok {r : Resolution} {first second : Instant} {n : Nat}
    (h : r.next first = .ok second) :
    unitStarts r first (n + 1) = first :: unitStarts r second n := by
  rw [unitStarts, h]

theorem unitStarts_of_next_eq_error {r : Resolution} {first : Instant} {e : CounterError} {n : Nat}
    (h : r.next first = .error e) : unitStarts r first (n + 1) = [first] := by
  rw [unitStarts, h]

def instants (s : Series) : List Instant :=
  unitStarts s.resolution (s.resolution.floor s.interval.start) s.counts.length

end Series

end Rollup
