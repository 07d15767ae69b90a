import Rollup.Retry.Policy

/-!
This module contains the waits of a policy as they are computed in words of 32 and 64 bits, where
every operation either is exact or has no result. The main statement is `waitInWords_eq_wait`: a
result is missing only where the exact one is too large as well, so that saturating there gives the
waits of exact arithmetic.
-/

namespace Rollup

open Rollup.Retry Rollup.Time

-- powers mean the same whatever else is imported
attribute [local instance (high)] instPowNat

/--
A number, if it fits in a word.
-/
def word? (bits n : Nat) : Option Nat :=
  if n < 2 ^ bits then some n else none

theorem word?_of_lt {bits n : Nat} (h : n < 2 ^ bits) : word? bits n = some n :=
  if_pos h

theorem word?_of_le {bits n : Nat} (h : 2 ^ bits ≤ n) : word? bits n = none :=
  if_neg (Nat.not_lt.2 h)

namespace Retry

/--
A power by repeated squaring, if no product on the way leaves the word.
-/
def power? (base exponent : Nat) : Option Nat :=
  go 1 base exponent
where
  -- multiply a number by a power
  go (acc base exponent : Nat) : Option Nat :=
    if exponent = 0 then some acc
    else if exponent = 1 then word? 32 (acc * base)
    else do
      let acc ← if exponent % 2 = 1 then word? 32 (acc * base) else some acc
      let square ← word? 32 (base * base)
      go acc square (exponent / 2)
  termination_by exponent

namespace power?

variable {acc base exponent : Nat}

/--
The square of the base is a factor of what is left to do, so it only leaves the word if the result
does.
-/
theorem go_square (hexponent : 2 ≤ exponent) (hne : base ≠ 0 → acc ≠ 0)
    (ih : base * base < 2 ^ (32 : Nat) →
      go acc (base * base) (exponent / 2) = word? 32 (acc * (base * base) ^ (exponent / 2))) :
    ((word? 32 (base * base)).bind fun square => go acc square (exponent / 2))
      = word? 32 (acc * (base * base) ^ (exponent / 2)) := by
  by_cases hsquare : base * base < 2 ^ (32 : Nat)
  · rw [word?_of_lt hsquare, Option.bind_some, ih hsquare]
  · have hle := Nat.not_lt.1 hsquare
    have hbase : base ≠ 0 := by
      rintro rfl
      exact hsquare (by decide)
    have hpower : base * base ≤ (base * base) ^ (exponent / 2) :=
      Nat.le_self_pow (by omega) _
    have hacc : (base * base) ^ (exponent / 2) ≤ acc * (base * base) ^ (exponent / 2) :=
      Nat.le_mul_of_pos_left _ (Nat.pos_of_ne_zero (hne hbase))
    rw [word?_of_le hle, word?_of_le (Nat.le_trans hle (Nat.le_trans hpower hacc)),
      Option.bind_none]

theorem pow_eq_of_even (h : exponent % 2 ≠ 1) :
    acc * base ^ exponent = acc * (base * base) ^ (exponent / 2) := by
  have hexponent : 2 * (exponent / 2) = exponent := by omega
  rw [← Nat.pow_two, ← Nat.pow_mul, hexponent]

theorem pow_eq_of_odd (h : exponent % 2 = 1) :
    acc * base ^ exponent = acc * base * (base * base) ^ (exponent / 2) := by
  have hexponent : exponent = 2 * (exponent / 2) + 1 := by omega
  have hpow : base ^ exponent = base * base ^ (2 * (exponent / 2)) := by
    rw [← Nat.pow_succ', Nat.succ_eq_add_one, ← hexponent]
  rw [← Nat.pow_two, ← Nat.pow_mul, Nat.mul_assoc, hpow]

theorem go_eq (hacc : acc < 2 ^ (32 : Nat)) (hne : base ≠ 0 → acc ≠ 0) :
    go acc base exponent = word? 32 (acc * base ^ exponent) := by
  induction exponent using Nat.strongRecOn generalizing acc base with
  | ind exponent ih =>
    unfold go
    split
    · next hzero => rw [hzero, Nat.pow_zero, Nat.mul_one, word?_of_lt hacc]
    split
    · next hone => rw [hone, Nat.pow_one]
    have hhalf : exponent / 2 < exponent := by omega
    split
    · next hodd =>
      rw [pow_eq_of_odd hodd]
      by_cases hproduct : acc * base < 2 ^ (32 : Nat)
      · have hnext : base ≠ 0 → acc * base ≠ 0 := fun h => Nat.mul_ne_zero (hne h) h
        rw [word?_of_lt hproduct]
        exact go_square (by omega) hnext fun _ =>
          ih _ hhalf hproduct fun h => hnext fun hzero => h (by rw [hzero])
      · have hle : acc * base ≤ acc * base * (base * base) ^ (exponent / 2) := by
          rw [← pow_eq_of_odd hodd]
          exact Nat.mul_le_mul_left acc (Nat.le_self_pow (by omega) base)
        have hlimit := Nat.not_lt.1 hproduct
        rw [word?_of_le hlimit, word?_of_le (Nat.le_trans hlimit hle)]
        rfl
    · next heven =>
      rw [pow_eq_of_even heven]
      exact go_square (by omega) hne fun _ =>
        ih _ hhalf hacc fun h => hne fun hzero => h (by rw [hzero])

end power?

theorem power?_eq (base exponent : Nat) : power? base exponent = word? 32 (base ^ exponent) := by
  unfold power?
  rw [power?.go_eq (by decide) fun _ => Nat.one_ne_zero, Nat.one_mul]

theorem getD_power? (base exponent : Nat) :
    (power? base exponent).getD maxGrowth = growth base exponent := by
  rw [power?_eq, growth_eq]
  unfold word? maxGrowth
  split
  · rw [Option.getD_some]
    omega
  · rw [Option.getD_none]
    omega

end Retry

namespace Time.Duration

variable {d : Duration} {n : Nat}

/--
A multiple of a length of time, if its seconds fit in a word. The nanoseconds beside the whole
seconds are multiplied on their own, and the seconds in their product are carried over.
-/
def times? (d : Duration) (n : Nat) : Option Duration := do
  let nanos ← word? 64 (d.subsecond * n)
  let seconds ← word? 64 (d.seconds * n)
  let seconds ← word? 64 (seconds + nanos / 1000000000)
  return ofNanos (seconds * 1000000000 + nanos % 1000000000)

theorem nanos_eq (d : Duration) : d.nanos = d.seconds * 1000000000 + d.subsecond := by
  unfold seconds subsecond
  omega

theorem nanos_mul_eq (d : Duration) (n : Nat) : d.nanos * n
    = (d.seconds * n + d.subsecond * n / 1000000000) * 1000000000
      + d.subsecond * n % 1000000000 := by
  rw [nanos_eq, Nat.add_mul, Nat.mul_right_comm]
  omega

theorem subsecond_mul_lt (hn : n < 2 ^ (32 : Nat)) : d.subsecond * n < 2 ^ (64 : Nat) := by
  have hsubsecond : d.subsecond < 1000000000 := Nat.mod_lt _ (by decide)
  have hproduct : d.subsecond * n ≤ 1000000000 * 2 ^ (32 : Nat) :=
    Nat.mul_le_mul (Nat.le_of_lt hsubsecond) (Nat.le_of_lt hn)
  omega

theorem ofNanos_of_le (h : 2 ^ (64 : Nat) * 1000000000 ≤ n) : ofNanos n = longest :=
  dif_neg (Nat.not_lt.2 h)

theorem getD_times? (hn : n < 2 ^ (32 : Nat)) :
    (d.times? n).getD longest = ofNanos (d.nanos * n) := by
  have hmul := nanos_mul_eq d n
  unfold times?
  rw [word?_of_lt (subsecond_mul_lt hn)]
  simp only [Option.bind_eq_bind, Option.bind_some, Option.pure_def]
  by_cases hseconds : d.seconds * n < 2 ^ (64 : Nat)
  · rw [word?_of_lt hseconds, Option.bind_some]
    by_cases hsum : d.seconds * n + d.subsecond * n / 1000000000 < 2 ^ (64 : Nat)
    · rw [word?_of_lt hsum, hmul, Option.bind_some, Option.getD_some]
    · rw [word?_of_le (Nat.not_lt.1 hsum), ofNanos_of_le (by omega), Option.bind_none,
        Option.getD_none]
  · rw [word?_of_le (Nat.not_lt.1 hseconds), ofNanos_of_le (by omega), Option.bind_none,
      Option.getD_none]

/--
The shorter of two lengths of time: the seconds are compared first, then the rest.
-/
def minByParts (a b : Duration) : Duration :=
  if a.seconds < b.seconds ∨ a.seconds = b.seconds ∧ a.subsecond ≤ b.subsecond then a else b

theorem minByParts_eq (a b : Duration) : a.minByParts b = a.min b := by
  have hle : (a.seconds < b.seconds ∨ a.seconds = b.seconds ∧ a.subsecond ≤ b.subsecond)
      ↔ a.nanos ≤ b.nanos := by
    unfold seconds subsecond
    omega
  unfold minByParts Duration.min
  simp only [hle]

end Time.Duration

namespace Retry.Policy

/--
A wait as it is computed: a power that does not fit is the largest factor, a product that does not
fit is the longest wait, and the maximum comes last.
-/
def waitInWords (p : Policy) (attempt : Nat) : Duration :=
  let factor := (power? p.coefficient attempt).getD maxGrowth
  let candidate := (p.initial.times? factor).getD Duration.longest
  match p.maximum with
  | none => candidate
  | some maximum => candidate.minByParts maximum

theorem waitInWords_eq_wait (p : Policy) (attempt : Nat) :
    p.waitInWords attempt = p.wait attempt := by
  have hfactor : growth p.coefficient attempt < 2 ^ (32 : Nat) := by
    rw [growth_eq]
    unfold maxGrowth
    omega
  unfold waitInWords wait
  rw [getD_power?]
  cases p.maximum with
  | none => simp only [Duration.getD_times? hfactor]
  | some maximum => simp only [Duration.getD_times? hfactor, Duration.minByParts_eq]

end Retry.Policy

end Rollup
