import Rollup.Text.Numeral
import Rollup.Time.Instant

/-!
This module contains the keys under which a store holds counters. Every key starts with the root of
its key space. A counter has a hash of counts per level and bucket, a total, and a set of the bucket
keys that hold some of its counts; all counters share the set of names.
-/

namespace Rollup

open Rollup.Time Rollup.Text

/--
The nested levels at which an instant is counted. Each level is named for the span of its buckets
and counts by the next finer unit.
-/
inductive Level where
  | years
  | year
  | month
  | day
  | hour
deriving DecidableEq

namespace Level

def all : List Level := [years, year, month, day, hour]

/--
The part of a bucket key that tells the bucket of `a`. It never contains a colon.
-/
def suffix (level : Level) (a : Instant) : String :=
  match level with
  | years => "years"
  | year => padInt 4 a.year
  | month => padInt 4 a.year ++ padNat 2 a.month
  | day => padInt 4 a.year ++ padNat 2 a.month ++ padNat 2 a.day
  | hour => padInt 4 a.year ++ padNat 2 a.month ++ padNat 2 a.day ++ padNat 2 a.hour

def field (level : Level) (a : Instant) : String :=
  match level with
  | years => decimal a.year
  | year => decimal a.month
  | month => decimal a.day
  | day => decimal a.hour
  | hour => decimal a.minute

end Level

structure KeySpace where
  root : String
deriving DecidableEq

namespace KeySpace

def standardRoot : String := "aggregatecounters"

def standard : KeySpace := ⟨standardRoot⟩

def total (keys : KeySpace) (name : String) : String :=
  s!"{keys.root}:total:{name}"

def bookkeeping (keys : KeySpace) (name : String) : String :=
  s!"{keys.root}:keys:{name}"

def names (keys : KeySpace) : String :=
  s!"{keys.root}:names"

def bucketBase (keys : KeySpace) (name : String) : String :=
  s!"{keys.root}:buckets:{name}:"

def bucket (keys : KeySpace) (name : String) (level : Level) (a : Instant) : String :=
  keys.bucketBase name ++ level.suffix a

def years (keys : KeySpace) (name : String) : String :=
  keys.bucketBase name ++ "years"

theorem bucket_years (keys : KeySpace) (name : String) (a : Instant) :
    keys.bucket name .years a = keys.years name := rfl

def levels (keys : KeySpace) (name : String) (a : Instant) : List (String × String) :=
  Level.all.map fun level => (keys.bucket name level a, level.field a)

theorem length_levels (keys : KeySpace) (name : String) (a : Instant) :
    (keys.levels name a).length = 5 := rfl

end KeySpace

end Rollup
