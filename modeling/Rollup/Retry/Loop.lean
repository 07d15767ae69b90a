import Rollup.Retry.Policy
import Rollup.Store.Command

/-!
This module contains the retry loop of a single command.
-/

namespace Rollup.Retry

open Rollup.Store Rollup.Time

/--
What came of a command that was sent as often as its policy allows: the last result, and the waits
before each further attempt.
-/
structure Attempts (α : Type) where
  result : Except Failure α
  waits : List Duration

def Policy.attempt {σ α : Type} (p : Policy) (send : σ → Except Failure α × σ) (s : σ) :
    Attempts α × σ :=
  go 0 (p.maxAttempts - 1) s
where
  -- go on after `failed` failures, with `left` attempts left beside the next one
  go (failed : Nat) : Nat → σ → Attempts α × σ
    | 0, s =>
      let (result, s) := send s
      (⟨result, []⟩, s)
    | left + 1, s =>
      match send s with
      | (.ok reply, s) => (⟨.ok reply, []⟩, s)
      | (.error failure, s) =>
        if failure.IsTransient then
          let (attempts, s) := go (failed + 1) left s
          (⟨attempts.result, p.wait failed :: attempts.waits⟩, s)
        else
          (⟨.error failure, []⟩, s)

end Rollup.Retry
