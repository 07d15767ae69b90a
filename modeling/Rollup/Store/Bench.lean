import Rollup.Store.Data

/-!
This module contains the in-process store as a test bench: it logs every command that reaches it,
and commands can be made to fail.
-/

namespace Rollup.Store

def takeFirst {α : Type} (verb : Verb) : List (Verb × α) → Option (α × List (Verb × α))
  | [] => none
  | entry :: rest =>
    if entry.1 = verb then
      some (entry.2, rest)
    else
      (takeFirst verb rest).map fun (value, rest) => (value, entry :: rest)

structure Bench where
  data : Data
  -- the failures queued for commands, in the order of queueing
  failures : List (Verb × Failure)
  -- the commands received, failed ones included, the last one first
  log : List Command

namespace Bench

def empty : Bench := ⟨.empty, [], []⟩

def failNext (bench : Bench) (verb : Verb) (failure : Failure) (times : Nat) : Bench :=
  { bench with failures := bench.failures ++ List.replicate times (verb, failure) }

/--
Log a command, and let it fail before it does anything if a failure is queued for it.
-/
def send : Client Bench := fun c bench =>
  let bench := { bench with log := c :: bench.log }
  match takeFirst c.verb bench.failures with
  | some (failure, failures) => (.error failure, { bench with failures })
  | none =>
    let (reply, data) := Data.send c bench.data
    (reply, { bench with data })

def callsAfter (bench : Bench) (n : Nat) : List Command :=
  bench.log.reverse.drop n

/--
How often commands of one name were received. No commands have a name that is not a verb's.
-/
def callCount (bench : Bench) (name : String) : Nat :=
  bench.log.countP fun c => c.verb.name = name

end Bench

end Rollup.Store
