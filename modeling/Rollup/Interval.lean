import Rollup.CounterError

/-!
This module contains closed intervals of time.
-/

namespace Rollup

open Rollup.Time

structure Interval where
  start : Instant
  finish : Instant
  start_le : start ≤ finish
deriving DecidableEq

namespace Interval

def of (start finish : Instant) : Except CounterError Interval :=
  if h : start ≤ finish then .ok ⟨start, finish, h⟩ else .error (.invalidInterval start finish)

end Interval

end Rollup
