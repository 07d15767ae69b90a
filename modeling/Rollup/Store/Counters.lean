import Rollup.Source
import Rollup.Store.Program

/-!
This module contains the operations on counters kept in a store, as programs of store commands. They
are no transactions: an increment that fails half way leaves the buckets counted that it had
reached, from coarse to fine.
-/

namespace Rollup.Store.Counters

open Rollup.Time

-- sums mean the same whatever else is imported
attribute [local instance (high)] Zero.ofOfNat0

/--
Add to one field of a bucket. A reply equal to the amount means that the field was zero, so that the
bucket may be new and has to be recorded for the next reset.
-/
def countIn (bookkeeping key field : String) (amount : Count) : Program Unit := do
  let value : Count ← Program.send (.hincrby key field amount)
  if value = amount then
    Program.send (.sadd bookkeeping key)
  else
    pure ()

def increment (keys : KeySpace) (name : String) (amount : Count) (instant : Instant) :
    Program Count := do
  liftExcept (checkName name)
  countAll (keys.levels name instant)
  let () ← Program.send (.sadd keys.names name)
  let total : Count ← Program.send (.incrBy (keys.total name) amount)
  Program.tell .incremented
  return total
where
  countAll : List (String × String) → Program Unit
    | [] => pure ()
    | (key, field) :: rest => do
      countIn (keys.bookkeeping name) key field amount
      countAll rest

/--
Remove every trace of a counter. Only the buckets that were listed leave the bookkeeping set, so
that one recorded in the meantime is left for the next reset.
-/
def reset (keys : KeySpace) (name : String) : Program Unit := do
  liftExcept (checkName name)
  let () ← Program.send (.del (keys.total name))
  let buckets : List String ← Program.send (.smembers (keys.bookkeeping name))
  let () ← Program.send (.batchDel buckets)
  let () ← Program.send (.srem (keys.bookkeeping name) buckets)
  let () ← Program.send (.srem keys.names [name])
  Program.tell .wasReset

def list (keys : KeySpace) : Program (List String) := do
  let names : List String ← Program.send (.smembers keys.names)
  return names.mergeSort

def readTotal (s : String) : Except CounterError Count :=
  match Count.read s with
  | .ok total => .ok total
  | .error e => .error (.store (.parse e.message))

def total (keys : KeySpace) (name : String) : Program Count := do
  liftExcept (checkName name)
  .call (.get (keys.total name)) fun
    | .ok value => liftExcept (readTotal value)
    | .error .notFound => pure 0
    | .error failure => throw (.store failure)

def row (b : Bucket) (start : Instant) (hash : Hash) : List Count :=
  Row.ofFields (b.slots start) b.firstUnit hash.toList

/--
The number of fields of a hash that do not belong into the bucket that starts at an instant.
-/
def strayFields (b : Bucket) (start : Instant) (hash : Hash) : Nat :=
  Row.dropped (b.slots start) b.firstUnit hash.toList

/--
The rows of the buckets that start at the given instants, read at the same time.
-/
def rows (keys : KeySpace) (name : String) (b : Bucket) (starts : List Instant) :
    Program (List (List Count)) :=
  .readAll (starts.map (b.key keys name)) fun
    | .all hashes => do
      let read := starts.zip hashes
      Program.tell (.ignoredFields (read.map fun (start, hash) => strayFields b start hash).sum)
      return read.map fun (start, hash) => row b start hash
    | .broken failure arrived => do
      let stray (start : Instant) (hash? : Option Hash) : Nat :=
        match hash? with
        | some hash => strayFields b start hash
        | none => 0
      Program.tell (.ignoredFields (starts.zipWith stray arrived).sum)
      throw (.store failure)

def yearOf? (field : String) : Option Int :=
  (Text.readSigned 32 field).toOption

def yearsOf (hash : Hash) : YearCounts :=
  hash.toList.foldl put ∅
where
  put (years : YearCounts) (entry : String × Count) : YearCounts :=
    match yearOf? entry.1 with
    | some year => years.insert year entry.2
    | none => years

/--
The counts per year of a counter. Fields that name no year are ignored.
-/
def yearCounts (keys : KeySpace) (name : String) : Program YearCounts := do
  let hash : Hash ← Program.send (.hgetall (keys.years name))
  Program.tell (.ignoredFields (hash.toList.countP fun entry => (yearOf? entry.1).isNone))
  return yearsOf hash

def source (keys : KeySpace) : Source Program where
  rows := rows keys
  yearCounts := yearCounts keys

def counts (keys : KeySpace) (name : String) (interval : Interval) (r : Resolution) :
    Program Series := do
  liftExcept (checkName name)
  Program.tell (.queried r)
  (source keys).resolve name interval r

end Rollup.Store.Counters
