import Rollup.Source

/-!
This module contains a source of rows that are given in advance. It takes down what it is asked for,
and one of its answers may be a failure.
-/

namespace Rollup.Session

open Rollup.Time

inductive Fetch where
  | row (name : String) (kind : Bucket) (start : Instant)
  | years (name : String)
deriving DecidableEq

structure Recorded where
  -- the rows of buckets, by kind and start. All other rows are zeros.
  rows : List (Bucket × Instant × List Count)
  years : YearCounts
  -- the place of the fetch that runs out of time, counted from zero
  failAt : Option Nat

namespace Recorded

abbrev Recording := ExceptT CounterError (StateM (List Fetch))

def fetch {α : Type} (recorded : Recorded) (wanted : Fetch) (answer : α) : Recording α := do
  let earlier ← get
  set (wanted :: earlier)
  if recorded.failAt = some earlier.length then
    throw (.store .timeout)
  return answer

def row (recorded : Recorded) (kind : Bucket) (start : Instant) : List Count :=
  match recorded.rows.find? fun entry => entry.1 = kind ∧ entry.2.1 = start with
  | some entry => entry.2.2
  | none => List.replicate (kind.slots start) 0

def source (recorded : Recorded) : Source Recording :=
  .oneByOne
    (fun name kind start => recorded.fetch (.row name kind start) (recorded.row kind start))
    (fun name => recorded.fetch (.years name) recorded.years)

/--
The series of a counter over an interval, and the fetches made for it, in their order.
-/
def resolve (recorded : Recorded) (name : String) (interval : Interval) (r : Resolution) :
    Except CounterError Series × List Fetch :=
  let (result, fetches) := (recorded.source.resolve name interval r).run []
  (result, fetches.reverse)

end Recorded

end Rollup.Session
