/-!
This module contains lengths of time, counted in nanoseconds up to the longest one whose seconds
have 64 bits.
-/

namespace Rollup.Time

-- powers mean the same whatever else is imported
attribute [local instance (high)] instPowNat

structure Duration where
  nanos : Nat
  nanos_lt : nanos < 2 ^ (64 : Nat) * 1000000000
deriving DecidableEq

namespace Duration

theorem ext {a b : Duration} (h : a.nanos = b.nanos) : a = b := by
  cases a
  cases b
  simp_all

def zero : Duration := ⟨0, by decide⟩

def longest : Duration := ⟨2 ^ (64 : Nat) * 1000000000 - 1, by decide⟩

def ofNanos (n : Nat) : Duration :=
  if h : n < 2 ^ (64 : Nat) * 1000000000 then ⟨n, h⟩ else longest

theorem nanos_ofNanos (n : Nat) : (ofNanos n).nanos = min n (2 ^ (64 : Nat) * 1000000000 - 1) := by
  unfold ofNanos
  split
  · simp only
    omega
  · simp only [longest]
    omega

def ofSeconds (n : Nat) : Duration :=
  ofNanos (n * 1000000000)

def ofMillis (n : Nat) : Duration :=
  ofNanos (n * 1000000)

protected def min (a b : Duration) : Duration :=
  if a.nanos ≤ b.nanos then a else b

theorem nanos_min (a b : Duration) : (a.min b).nanos = min a.nanos b.nanos := by
  unfold Duration.min
  split <;> omega

def seconds (d : Duration) : Nat := d.nanos / 1000000000

def subsecond (d : Duration) : Nat := d.nanos % 1000000000

def millisCeil (d : Duration) : Nat := (d.nanos + 999999) / 1000000

end Duration

end Rollup.Time
