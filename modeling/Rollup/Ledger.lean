import Rollup.Source

/-!
This module contains counters kept in memory. Each counter has its total, its counts per year and
the rows of its buckets. An increment changes all of them or, where one has no room for it, none.
-/

namespace Rollup

open Rollup.Time

structure BucketId where
  kind : Bucket
  start : Instant
deriving DecidableEq

namespace Bucket

def number : Bucket → Nat
  | year => 0
  | month => 1
  | day => 2
  | hour => 3

theorem number_injective {a b : Bucket} (h : a.number = b.number) : a = b := by
  cases a <;> cases b <;> first | rfl | cases h

end Bucket

namespace BucketId

instance : Ord BucketId :=
  ⟨compareLex (compareOn fun id => id.kind.number) (compareOn fun id => id.start.rank)⟩

instance : Std.TransOrd BucketId :=
  inferInstanceAs (Std.TransCmp
    (compareLex (compareOn fun id : BucketId => id.kind.number)
      (compareOn fun id : BucketId => id.start.rank)))

instance : Std.LawfulEqOrd BucketId where
  eq_of_compare {a b} h := by
    have ⟨kind, start⟩ := Ordering.then_eq_eq.1 h
    have kind := Bucket.number_injective (Std.LawfulEqCmp.eq_of_compare kind)
    have start := Instant.rank_injective (Std.LawfulEqCmp.eq_of_compare start)
    cases a
    cases b
    simp_all

end BucketId

structure Tally where
  total : Count
  years : YearCounts
  rows : Std.ExtTreeMap BucketId (List Count)

namespace Tally

def empty : Tally := ⟨0, ∅, ∅⟩

def row (t : Tally) (id : BucketId) : List Count :=
  t.rows.getD id (List.replicate (id.kind.slots id.start) 0)

def addAt? (row : List Count) (slot : Nat) (amount : Count) : Option (List Count) :=
  ((row.getD slot 0).add? amount).map (row.set slot)

/--
Add to the slot of an instant in the bucket of the given kind, if the sum is in range.
-/
def addIn? (t : Tally) (amount : Count) (instant : Instant) (kind : Bucket) :
    Option (BucketId × List Count) :=
  let id : BucketId := ⟨kind, kind.floor instant⟩
  (addAt? (t.row id) (kind.slot instant) amount).map fun row => (id, row)

def add? (t : Tally) (amount : Count) (instant : Instant) : Option Tally := do
  let year ← (t.years.getD instant.year 0).add? amount
  let rows ← Bucket.all.mapM (t.addIn? amount instant)
  let total ← t.total.add? amount
  return {
    total
    years := t.years.insert instant.year year
    rows := rows.foldl (fun rows (id, row) => rows.insert id row) t.rows
  }

end Tally

abbrev Ledger := Std.ExtTreeMap String Tally

namespace Ledger

def empty : Ledger := ∅

def tally (l : Ledger) (name : String) : Tally :=
  Std.ExtTreeMap.getD l name .empty

def increment (l : Ledger) (name : String) (amount : Count) (instant : Instant) :
    Except CounterError (Count × Ledger) := do
  checkName name
  match (l.tally name).add? amount instant with
  | some tally => return (tally.total, Std.ExtTreeMap.insert l name tally)
  | none => throw (.overflow name)

def reset (l : Ledger) (name : String) : Except CounterError Ledger := do
  checkName name
  return Std.ExtTreeMap.erase l name

def list (l : Ledger) : List String :=
  Std.ExtTreeMap.keys l

def total (l : Ledger) (name : String) : Except CounterError Count := do
  checkName name
  return (l.tally name).total

def source (l : Ledger) : Source (Except CounterError) :=
  .oneByOne (fun name kind start => return (l.tally name).row ⟨kind, start⟩)
    (fun name => return (l.tally name).years)

def counts (l : Ledger) (name : String) (interval : Interval) (r : Resolution) :
    Except CounterError Series := do
  checkName name
  l.source.resolve name interval r

end Ledger

end Rollup
