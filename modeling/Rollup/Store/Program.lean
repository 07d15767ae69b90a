import Rollup.CounterError
import Rollup.Event

/-!
This module contains programs of store commands: operations that send commands one after the other,
each depending on the replies before it. A program is data, so that it can be run by a plain client,
by one that sends failed commands again, or command by command between others.
-/

namespace Rollup.Store

/--
What came of reading several hashes at once: all of them in order, or a failure and those that had
arrived before it.
-/
inductive Fetched where
  | all (hashes : List Hash)
  | broken (failure : Failure) (arrived : List (Option Hash))

inductive Program (α : Type) : Type where
  | done (result : Except CounterError α)
  -- send a command and go on with its reply or its failure
  | call (c : Command) (next : Except Failure c.Reply → Program α)
  -- read the hashes at some keys at the same time
  | readAll (keys : List String) (next : Fetched → Program α)
  | report (event : Event) (next : Program α)

namespace Program

def bind {α β : Type} (p : Program α) (next : α → Program β) : Program β :=
  match p with
  | done (.ok a) => next a
  | done (.error e) => done (.error e)
  | call c rest => call c fun reply => (rest reply).bind next
  | readAll keys rest => readAll keys fun fetched => (rest fetched).bind next
  | report event rest => report event (rest.bind next)

instance : Monad Program where
  pure a := done (.ok a)
  bind := bind

def recover {α : Type} (p : Program α) (handle : CounterError → Program α) : Program α :=
  match p with
  | done (.ok a) => done (.ok a)
  | done (.error e) => handle e
  | call c rest => call c fun reply => (rest reply).recover handle
  | readAll keys rest => readAll keys fun fetched => (rest fetched).recover handle
  | report event rest => report event (rest.recover handle)

instance : MonadExceptOf CounterError Program where
  throw e := done (.error e)
  tryCatch := recover

theorem bind_assoc {α β γ : Type} (p : Program α) (first : α → Program β)
    (second : β → Program γ) :
    (p.bind first).bind second = p.bind fun a => (first a).bind second := by
  induction p with
  | done result => cases result <;> rfl
  | call c rest ih =>
    simp only [bind]
    congr
    exact funext ih
  | readAll keys rest ih =>
    simp only [bind]
    congr
    exact funext ih
  | report event rest ih => rw [bind, bind, bind, ih]

def send (c : Command) : Program c.Reply :=
  call c fun
    | .ok reply => done (.ok reply)
    | .error failure => done (.error (.store failure))

def tell (event : Event) : Program Unit :=
  report event (done (.ok ()))

end Program

/--
What programs run on: how commands are sent, how hashes are read at the same time, and what becomes
of reports.
-/
structure Runtime (σ : Type) where
  send : Client σ
  readAll : List String → σ → Fetched × σ
  report : Event → σ → σ

namespace Program

def run {σ α : Type} (rt : Runtime σ) : Program α → σ → Except CounterError α × σ
  | done result, s => (result, s)
  | call c next, s =>
    let (reply, s) := rt.send c s
    (next reply).run rt s
  | readAll keys next, s =>
    let (fetched, s) := rt.readAll keys s
    (next fetched).run rt s
  | report event next, s => next.run rt (rt.report event s)

end Program

def Client.readInTurn {σ : Type} (client : Client σ) : List String → σ → Fetched × σ
  | [], s => (.all [], s)
  | key :: keys, s =>
    match client (.hgetall key) s with
    | (.error failure, s) => (.broken failure ((key :: keys).map fun _ => none), s)
    | (.ok hash, s) =>
      match client.readInTurn keys s with
      | (.all hashes, s) => (.all (hash :: hashes), s)
      | (.broken failure arrived, s) => (.broken failure (some hash :: arrived), s)

end Rollup.Store
