import Rollup.Time.Duration

/-!
This module contains the retry policies: how often a failing command is sent, and how long to wait
before it is sent again. The main statement is `nanos_wait`: waits follow exact arithmetic, cut off
at the longest duration and at the maximum of the policy.
-/

namespace Rollup.Retry

open Rollup.Time

-- powers mean the same whatever else is imported
attribute [local instance (high)] instPowNat

/--
How many times, and how far apart, a command is sent while it fails in a way that may pass.
-/
structure Policy where
  -- all attempts, the first one included
  maxAttempts : Nat
  -- the factor from each wait to the next
  coefficient : Nat
  initial : Duration
  -- the longest wait, if there is a bound
  maximum : Option Duration
  one_le : 1 ≤ maxAttempts
deriving DecidableEq

def maxGrowth : Nat := 2 ^ (32 : Nat) - 1

def growth (coefficient attempt : Nat) : Nat :=
  if attempt = 0 then 1
  else if coefficient ≤ 1 then coefficient
  else if 32 ≤ attempt then maxGrowth
  else min (coefficient ^ attempt) maxGrowth

theorem growth_eq (coefficient attempt : Nat) :
    growth coefficient attempt = min (coefficient ^ attempt) maxGrowth := by
  unfold growth
  split
  · next h =>
    rw [h, Nat.pow_zero]
    decide
  · next h =>
    split
    · next hc =>
      rcases Nat.le_one_iff_eq_zero_or_eq_one.1 hc with rfl | rfl
      · rw [Nat.zero_pow (Nat.pos_of_ne_zero h)]
        decide
      · rw [Nat.one_pow]
        decide
    · next hc =>
      split
      · next ha =>
        have h2 : 2 ^ attempt ≤ coefficient ^ attempt := Nat.pow_le_pow_left (by omega) attempt
        have h32 : 2 ^ (32 : Nat) ≤ 2 ^ attempt := Nat.pow_le_pow_right (by decide) ha
        unfold maxGrowth
        omega
      · rfl

namespace Policy

def of (maxAttempts coefficient : Nat) (initial : Duration) (maximum : Option Duration) :
    Policy where
  maxAttempts := max maxAttempts 1
  coefficient
  initial
  maximum
  one_le := Nat.le_max_right _ _

def disabled : Policy :=
  of 1 1 Duration.zero none

/--
Three attempts, one second apart: the factor of 2 is held back by the maximum from the start.
-/
def standard : Policy :=
  of 3 2 (Duration.ofSeconds 1) (some (Duration.ofSeconds 1))

def wait (p : Policy) (attempt : Nat) : Duration :=
  let candidate := Duration.ofNanos (p.initial.nanos * growth p.coefficient attempt)
  match p.maximum with
  | none => candidate
  | some maximum => candidate.min maximum

theorem nanos_wait (p : Policy) (attempt : Nat) :
    (p.wait attempt).nanos =
      let exact := p.initial.nanos * min (p.coefficient ^ attempt) (2 ^ (32 : Nat) - 1)
      let bounded := min exact Duration.longest.nanos
      match p.maximum with
      | none => bounded
      | some maximum => min bounded maximum.nanos := by
  unfold wait
  cases p.maximum with
  | none =>
    simp only [growth_eq, Duration.nanos_ofNanos]
    rfl
  | some maximum =>
    simp only [growth_eq, Duration.nanos_min, Duration.nanos_ofNanos]
    rfl

end Policy

end Rollup.Retry
