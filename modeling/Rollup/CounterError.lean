import Rollup.Store.Failure
import Rollup.Time.Text

/-!
This module contains the errors of the operations on counters.
-/

namespace Rollup

open Rollup.Time

inductive CounterError where
  | emptyName
  | invalidCount (n : Nat)
  | invalidInterval (start finish : Instant)
  -- a calendar step from this instant has no representable result
  | outOfRange (origin : Instant)
  -- the named counter has no room for an increment
  | overflow (name : String)
  | store (failure : Store.Failure)
deriving DecidableEq

namespace CounterError

def message : CounterError → String
  | emptyName => "counter name must not be empty"
  | invalidCount n => s!"at least one count must be requested, got {n}"
  | invalidInterval start finish =>
    s!"interval start {start.phrase} is after its end {finish.phrase}"
  | outOfRange instant =>
    s!"calendar arithmetic from {instant.phrase} left the representable range"
  | overflow name => s!"incrementing {name} would overflow a 64-bit count"
  | store failure => "backend error: " ++ failure.message

end CounterError

def stepFrom (origin : Instant) (result : Option Instant) : Except CounterError Instant :=
  match result with
  | some instant => .ok instant
  | none => .error (.outOfRange origin)

theorem stepFrom_eq_ok_iff {origin a : Instant} {result : Option Instant} :
    stepFrom origin result = .ok a ↔ result = some a := by
  cases result <;> simp [stepFrom]

theorem stepFrom_eq_error_iff {origin : Instant} {result : Option Instant} {e : CounterError} :
    stepFrom origin result = .error e ↔ result = none ∧ e = .outOfRange origin := by
  cases result <;> simp [stepFrom, eq_comm]

def checkName (name : String) : Except CounterError Unit :=
  if name = "" then .error .emptyName else .ok ()

end Rollup
