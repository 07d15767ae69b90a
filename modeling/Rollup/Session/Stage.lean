import Rollup.Store.Bench

/-!
This module contains a test bench with a script: replies that are changed on their way to the
client, and things that happen right after a command.
-/

namespace Rollup.Session

open Rollup.Store

inductive Sequel where
  | command (c : Command)
  -- the next commands of one name are made to fail
  | failNext (verb : Verb) (failure : Failure) (times : Nat)

structure Stage where
  bench : Bench
  -- the texts to answer to the next reads of a string
  texts : List String
  -- what happens after the next successful commands, in the order of queueing
  sequels : List (Verb × Sequel)

namespace Stage

def empty : Stage := ⟨.empty, [], []⟩

def direct : Client Stage := fun c stage =>
  let (result, bench) := Bench.send c stage.bench
  (result, { stage with bench })

/--
Answer a scripted text to the read of a string, whether there is one or not. A failure stays one.
-/
def substitute (c : Command) (result : Except Failure c.Reply) (texts : List String) :
    Except Failure c.Reply × List String :=
  match c, texts with
  | .get _, text :: rest =>
    match result with
    | .ok _ | .error .notFound => (.ok text, rest)
    | .error failure => (.error failure, text :: rest)
  | _, texts => (result, texts)

def play (stage : Stage) : Sequel → Stage
  | .command c => (direct c stage).2
  | .failNext verb failure times =>
    { stage with bench := stage.bench.failNext verb failure times }

def send : Client Stage := fun c stage =>
  let (result, stage) := direct c stage
  let (result, texts) := substitute c result stage.texts
  let stage := { stage with texts }
  match result with
  | .error failure => (.error failure, stage)
  | .ok reply =>
    match takeFirst c.verb stage.sequels with
    | none => (.ok reply, stage)
    | some (sequel, sequels) => (.ok reply, play { stage with sequels } sequel)

end Stage

end Rollup.Session
