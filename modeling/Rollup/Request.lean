import Rollup.Event
import Rollup.Ledger
import Rollup.Store.Counters

/-!
This module contains the requests that a set of counters answers, and how they are answered by a
ledger in memory and by programs on a store.
-/

namespace Rollup

open Rollup.Time

inductive Request where
  -- add to a counter, answering its new total
  | increment (name : String) (amount : Count) (instant : Instant)
  | reset (name : String)
  | list
  -- tell the all-time total of a counter
  | total (name : String)
  -- tell the series of a counter between two instants
  | counts (name : String) (start finish : Instant) (r : Resolution)
  -- tell the series of the last units up to the one containing an instant
  | countsEnding (name : String) (n : Nat) (finish : Instant) (r : Resolution)
deriving DecidableEq

inductive Answer where
  | count (c : Count)
  | done
  | names (names : List String)
  | series (s : Series)
deriving DecidableEq

namespace Store.Counters

def answer (keys : KeySpace) : Request → Program Answer
  | .increment name amount instant => .count <$> increment keys name amount instant
  | .reset name => (fun () => .done) <$> reset keys name
  | .list => .names <$> list keys
  | .total name => .count <$> total keys name
  | .counts name start finish r => do
    let interval ← liftExcept (Interval.of start finish)
    .series <$> counts keys name interval r
  | .countsEnding name n finish r => do
    let interval ← liftExcept (Interval.ending r n finish)
    .series <$> counts keys name interval r

end Store.Counters

namespace Ledger

def answer (l : Ledger) : Request → Except CounterError Answer × Ledger
  | .increment name amount instant =>
    match l.increment name amount instant with
    | .ok (total, l) => (.ok (.count total), l)
    | .error e => (.error e, l)
  | .reset name =>
    match l.reset name with
    | .ok l => (.ok .done, l)
    | .error e => (.error e, l)
  | .list => (.ok (.names l.list), l)
  | .total name => (.count <$> l.total name, l)
  | .counts name start finish r =>
    (do
      let interval ← Interval.of start finish
      .series <$> l.counts name interval r, l)
  | .countsEnding name n finish r =>
    (do
      let interval ← Interval.ending r n finish
      .series <$> l.counts name interval r, l)

def events (l : Ledger) : Request → List Event
  | .increment name amount instant =>
    match l.increment name amount instant with
    | .ok _ => [.incremented]
    | .error _ => []
  | .reset name =>
    match l.reset name with
    | .ok _ => [.wasReset]
    | .error _ => []
  | .list | .total _ => []
  | .counts name start finish r => query name r (Interval.of start finish)
  | .countsEnding name n finish r => query name r (Interval.ending r n finish)
where
  query (name : String) (r : Resolution) : Except CounterError Interval → List Event
    | .ok _ => if name = "" then [] else [.queried r]
    | .error _ => []

end Ledger

end Rollup
