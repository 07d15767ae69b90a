import Rollup.Retry.Policy
import Rollup.Store.Program

/-!
This module contains the reading of several hashes at the same time, each read being sent again as a
policy allows. A read that has to wait lets the others go on, so the waits overlap. Time is counted
in whole milliseconds from the start of the reading, and each wait ends at the next whole one.
-/

namespace Rollup.Retry

open Rollup.Store Rollup.Time

-- sums mean the same whatever else is imported
attribute [local instance (high)] Zero.ofOfNat0

structure Pending where
  -- the place of its hash among those asked for
  place : Nat
  key : String
  due : Nat
  failed : Nat
  -- how often it may be sent after the next time
  left : Nat

namespace Pending

/--
Reads go on in the order of their times, those of one time in the order of their places.
-/
def before (a b : Pending) : Bool :=
  a.due < b.due || (a.due == b.due && a.place ≤ b.place)

def enqueue (a : Pending) : List Pending → List Pending
  | [] => [a]
  | b :: queue => if a.before b then a :: b :: queue else b :: a.enqueue queue

def attemptsLeft (queue : List Pending) : Nat :=
  (queue.map fun a => a.left + 1).sum

theorem attemptsLeft_enqueue (a : Pending) (queue : List Pending) :
    attemptsLeft (a.enqueue queue) = a.left + 1 + attemptsLeft queue := by
  induction queue with
  | nil => rfl
  | cons b queue ih =>
    unfold enqueue
    split
    · rfl
    · unfold attemptsLeft at ih ⊢
      rw [List.map_cons, List.sum_cons, ih, List.map_cons, List.sum_cons]
      omega

end Pending

structure Reading where
  -- the reads that are still to be sent, in order
  queue : List Pending
  -- the hashes that have arrived, by their places
  arrived : List (Option Hash)
  -- the first of the places whose reads have failed for good
  broken : Option (Nat × Failure)
  clock : Nat
  -- how many reads were sent again or are about to be
  retries : Nat

namespace Reading

/--
The reading of the hashes at some keys, each to be read at most the given number of times.
-/
def start (attempts : Nat) (keys : List String) : Reading where
  queue := keys.mapIdx fun place key =>
    { place, key, due := 0, failed := 0, left := attempts - 1 }
  arrived := keys.map fun _ => none
  broken := none
  clock := 0
  retries := 0

/--
The length of the longest reading that ends as soon as one of its reads fails for good. Longer ones
take their hashes in the order of the places, so they go on while a read before it is to be sent.
-/
def promptLength : Nat :=
  30

def isOver (r : Reading) (place : Nat) : Bool :=
  r.arrived.length ≤ promptLength || r.queue.all fun a => place < a.place

inductive Turn where
  | over (fetched : Fetched)
  -- send a read, and go on with the reading without it
  | send (a : Pending) (now : Reading)

def turn (r : Reading) : Turn :=
  match r.broken, r.queue with
  | none, [] => .over (.all (r.arrived.map fun hash? => hash?.getD ∅))
  | some (_, failure), [] => .over (.broken failure r.arrived)
  | none, a :: queue => .send a { r with queue, clock := max r.clock a.due }
  | some (place, failure), a :: queue =>
    if r.isOver place then .over (.broken failure r.arrived)
    else .send a { r with queue, clock := max r.clock a.due }

theorem queue_of_turn_eq_send {r now : Reading} {a : Pending} (h : r.turn = .send a now) :
    r.queue = a :: now.queue := by
  unfold turn at h
  split at h
  · cases h
  · cases h
  · cases h
    assumption
  · split at h
    · cases h
    · cases h
      assumption

def fail (r : Reading) (place : Nat) (failure : Failure) : Reading :=
  match r.broken with
  | none => { r with broken := some (place, failure) }
  | some (first, _) => if first < place then r else { r with broken := some (place, failure) }

end Reading

def Policy.settle (p : Policy) (a : Pending) (result : Except Failure Hash) (r : Reading) :
    Reading :=
  match result with
  | .ok hash => { r with arrived := r.arrived.set a.place (some hash) }
  | .error failure =>
    if a.left ≠ 0 ∧ failure.IsTransient then
      let due := r.clock + (p.wait a.failed).millisCeil
      let again := { a with due, failed := a.failed + 1, left := a.left - 1 }
      { r with queue := again.enqueue r.queue, retries := r.retries + 1 }
    else
      r.fail a.place failure

namespace Reading

theorem queue_fail (r : Reading) (place : Nat) (failure : Failure) :
    (r.fail place failure).queue = r.queue := by
  unfold fail
  split
  · rfl
  · split <;> rfl

theorem attemptsLeft_settle (p : Policy) (a : Pending) (result : Except Failure Hash)
    (r : Reading) :
    Pending.attemptsLeft (p.settle a result r).queue < Pending.attemptsLeft (a :: r.queue) := by
  have h : Pending.attemptsLeft (a :: r.queue) = a.left + 1 + Pending.attemptsLeft r.queue := rfl
  unfold Policy.settle
  split
  · simp only [h]
    omega
  · split
    · simp only [h, Pending.attemptsLeft_enqueue]
      omega
    · rw [queue_fail, h]
      omega

end Reading

def Policy.drain {σ : Type} (p : Policy) (client : Client σ) (r : Reading) (s : σ) :
    Fetched × Reading × σ :=
  match h : r.turn with
  | .over fetched => (fetched, r, s)
  | .send a now =>
    have : r.queue = a :: now.queue := Reading.queue_of_turn_eq_send h
    let (result, s) := client (.hgetall a.key) s
    p.drain client (p.settle a result now) s
termination_by Pending.attemptsLeft r.queue
decreasing_by
  rw [this]
  exact Reading.attemptsLeft_settle p a result now

/--
Read the hashes at some keys at the same time. The first attempts are made in the order of the keys.
-/
def Policy.readAll {σ : Type} (p : Policy) (client : Client σ) (keys : List String) (s : σ) :
    Fetched × Reading × σ :=
  p.drain client (Reading.start p.maxAttempts keys) s

end Rollup.Retry
