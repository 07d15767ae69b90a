import Rollup.Retry.Concurrent
import Rollup.Retry.Loop

/-!
This module contains the ways to run programs over a client, with or without retries, while taking
down the time spent waiting and the reported events.
-/

namespace Rollup.Retry

open Rollup.Store

-- sums mean the same whatever else is imported
attribute [local instance (high)] Zero.ofOfNat0

structure Observed (σ : Type) where
  state : σ
  millis : Nat
  -- the reported events, in their order
  events : List Event

namespace Observed

def start {σ : Type} (state : σ) : Observed σ := ⟨state, 0, []⟩

def report {σ : Type} (event : Event) (o : Observed σ) : Observed σ :=
  { o with events := o.events ++ [event] }

def plain {σ : Type} (client : Client σ) : Runtime (Observed σ) where
  send c o :=
    let (result, state) := client c o.state
    (result, { o with state })
  readAll keys o :=
    let (fetched, state) := client.readInTurn keys o.state
    (fetched, { o with state })
  report := report

def retrying {σ : Type} (p : Policy) (client : Client σ) : Runtime (Observed σ) where
  send c o :=
    let (attempts, state) := p.attempt (client c) o.state
    let waited := (attempts.waits.map Time.Duration.millisCeil).sum
    let retries := List.replicate attempts.waits.length (.retried c.verb)
    (attempts.result, ⟨state, o.millis + waited, o.events ++ retries⟩)
  readAll keys o :=
    let (fetched, reading, state) := p.readAll client keys o.state
    let retries := List.replicate reading.retries (.retried .hgetall)
    (fetched, ⟨state, o.millis + reading.clock, o.events ++ retries⟩)
  report := report

def runtime {σ : Type} (policy? : Option Policy) (client : Client σ) : Runtime (Observed σ) :=
  match policy? with
  | none => plain client
  | some p => retrying p client

end Observed

end Rollup.Retry
