import Rollup.Bucket
import Rollup.Row
import Rollup.Series
import Std.Data.ExtTreeMap

/-!
This module contains the resolution of a range query: an arbitrary interval is read from the buckets
one unit coarser than the resolution, whose rows are put end to end. Where the rows come from is a
parameter, and so is the monad that reads them.
-/

namespace Rollup

open Rollup.Time

abbrev YearCounts := Std.ExtTreeMap Int Count

structure Source (m : Type → Type) where
  -- the rows of the buckets of one kind that begin at the given instants, in their order
  rows : String → Bucket → List Instant → m (List (List Count))
  yearCounts : String → m YearCounts

namespace Source

def oneByOne {m : Type → Type} [Monad m] (row : String → Bucket → Instant → m (List Count))
    (yearCounts : String → m YearCounts) : Source m where
  rows name b starts := starts.mapM (row name b)
  yearCounts := yearCounts

end Source

/--
The kind of bucket that a query of this resolution reads. Years have no buckets of their own.
-/
def Resolution.bucket? : Resolution → Option Bucket
  | .minute => some .hour
  | .hour => some .day
  | .day => some .month
  | .month => some .year
  | .year => none

namespace Bucket

/--
The starts of `n` consecutive buckets, the first one at `first`. The end of each of them has to be
representable.
-/
def startsFrom (b : Bucket) (first : Instant) (n : Nat) :
    Except CounterError (List Instant) :=
  go n first []
where
  go : Nat → Instant → List Instant → Except CounterError (List Instant)
    | 0, _, earlier => .ok earlier.reverse
    | n + 1, start, earlier =>
      match b.next start with
      | .ok next => go n next (start :: earlier)
      | .error e => .error e

def startsOf (b : Bucket) (interval : Interval) : Except CounterError (List Instant) :=
  b.startsFrom (b.floor interval.start) (b.span.unitsSpanned interval.start interval.finish).toNat

/--
The counts of the units of an interval, out of the rows of the buckets that it meets.
-/
def cutRows (b : Bucket) (interval : Interval) (rows : List (List Count)) :
    Except CounterError (List Count) :=
  match (b.unit.unitsSpanned interval.start interval.finish).toNat? with
  | some len => .ok (Row.cut rows (b.slot interval.start) len)
  | none => .error (.outOfRange interval.finish)

end Bucket

namespace YearCounts

def within (years : YearCounts) (interval : Interval) : List Count :=
  let n := (interval.start.yearsBetween interval.finish + 1).toNat
  (List.range n).map fun (i : Nat) => years.getD (interval.start.year + i) 0

end YearCounts

namespace Source

variable {m : Type → Type} [Monad m] [MonadExceptOf CounterError m]

def counts (source : Source m) (name : String) (interval : Interval) (r : Resolution) :
    m (List Count) :=
  match r.bucket? with
  | none => do
    let years ← source.yearCounts name
    return YearCounts.within years interval
  | some b => do
    let starts ← liftExcept (b.startsOf interval)
    let rows ← source.rows name b starts
    liftExcept (b.cutRows interval rows)

def resolve (source : Source m) (name : String) (interval : Interval) (r : Resolution) :
    m Series := do
  let counts ← source.counts name interval r
  return { name, interval, resolution := r, counts }

end Source

/--
The interval of the `n` units of a resolution that end with the one containing `finish`.
-/
def Interval.ending (r : Resolution) (n : Nat) (finish : Instant) :
    Except CounterError Interval :=
  if n = 0 then
    .error (.invalidCount n)
  else
    match r.minus finish (n - 1) with
    | .ok start => Interval.of start finish
    | .error e => .error e

end Rollup
