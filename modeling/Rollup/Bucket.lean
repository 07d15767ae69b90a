import Rollup.KeySpace
import Rollup.Resolution

/-!
This module contains the buckets that range queries read. A bucket spans one calendar unit and has
one slot for each of the next finer units in it.
-/

namespace Rollup

open Rollup.Time

inductive Bucket where
  | hour
  | day
  | month
  | year
deriving DecidableEq

namespace Bucket

def all : List Bucket := [year, month, day, hour]

def span : Bucket → Resolution
  | hour => .hour
  | day => .day
  | month => .month
  | year => .year

def unit : Bucket → Resolution
  | hour => .minute
  | day => .hour
  | month => .day
  | year => .month

def level : Bucket → Level
  | hour => .hour
  | day => .day
  | month => .month
  | year => .year

def slots (b : Bucket) (a : Instant) : Nat :=
  match b with
  | hour => 60
  | day => 24
  | month => a.date.daysInMonth
  | year => 12

/--
The number of the unit in slot 0. Days and months count from 1.
-/
def firstUnit : Bucket → Nat
  | hour | day => 0
  | month | year => 1

def slot (b : Bucket) (a : Instant) : Nat :=
  match b with
  | hour => a.minute
  | day => a.hour
  | month => a.day - 1
  | year => a.month - 1

theorem slot_lt (b : Bucket) (a : Instant) : b.slot a < b.slots a := by
  cases b with
  | hour => exact a.minute_lt
  | day => exact a.hour_lt
  | month =>
    have := a.date.day_mem
    simp only [slot, slots, Instant.day, Date.daysInMonth]
    omega
  | year =>
    have := a.date.month_mem
    simp only [slot, slots, Instant.month]
    omega

def floor (b : Bucket) (a : Instant) : Instant :=
  b.span.floor a

def next (b : Bucket) (a : Instant) : Except CounterError Instant :=
  b.span.next a

def key (b : Bucket) (keys : KeySpace) (name : String) (a : Instant) : String :=
  keys.bucket name b.level a

end Bucket

end Rollup
