import Rollup.Request
import Rollup.Retry.Observed
import Rollup.Session.Stage

/-!
This module contains sessions: requests to fresh counters, and steps that look behind or disturb the
store that holds them. Each step tells how long it waited and how many warnings it caused.
-/

namespace Rollup.Session

open Rollup.Store Rollup.Retry

-- sums mean the same whatever else is imported
attribute [local instance (high)] Zero.ofOfNat0

inductive Step where
  | request (r : Request)
  -- send a command in the way that the counters send theirs
  | command (c : Command)
  -- send a command past the script and the retries
  | direct (c : Command)
  -- make the next commands of one name fail
  | failNext (verb : Verb) (failure : Failure) (times : Nat)
  -- answer a text to the next read of a string
  | answerText (text : String)
  -- let something happen after the next successful command of one name
  | after (verb : Verb) (sequel : Sequel)
  | keys
  -- tell the commands received since they were told last
  | calls
  -- tell how often commands of one name were received
  | callCount (name : String)

inductive Outcome where
  | answer (result : Except CounterError Answer)
  | reply (c : Command) (result : Except Failure c.Reply)
  | accepted
  | keys (keys : List String)
  | calls (calls : List Command)
  | callCount (n : Nat)

structure Report where
  outcome : Outcome
  millis : Nat
  events : List Event

namespace Report

def warnings (report : Report) : Nat :=
  (report.events.map Event.warnings).sum

def quiet (outcome : Outcome) : Report := ⟨outcome, 0, []⟩

end Report

structure State where
  stage : Stage
  -- the number of commands that were told
  told : Nat

namespace State

def empty : State := ⟨.empty, 0⟩

end State

def Step.run (keys : KeySpace) (policy? : Option Policy) (s : State) :
    Step → Report × State
  | .request r =>
    let rt := Observed.runtime policy? Stage.send
    let (result, o) := (Counters.answer keys r).run rt (.start s.stage)
    (⟨.answer result, o.millis, o.events⟩, { s with stage := o.state })
  | .command c =>
    let rt := Observed.runtime policy? Stage.send
    let (result, o) := rt.send c (.start s.stage)
    (⟨.reply c result, o.millis, o.events⟩, { s with stage := o.state })
  | .direct c =>
    let (result, stage) := Stage.direct c s.stage
    (.quiet (.reply c result), { s with stage })
  | .failNext verb failure times =>
    (.quiet .accepted, { s with stage := s.stage.play (.failNext verb failure times) })
  | .answerText text =>
    let stage := { s.stage with texts := s.stage.texts ++ [text] }
    (.quiet .accepted, { s with stage })
  | .after verb sequel =>
    let stage := { s.stage with sequels := s.stage.sequels ++ [(verb, sequel)] }
    (.quiet .accepted, { s with stage })
  | .keys => (.quiet (.keys s.stage.bench.data.keys), s)
  | .calls =>
    let bench := s.stage.bench
    (.quiet (.calls (bench.callsAfter s.told)), { s with told := bench.log.length })
  | .callCount name => (.quiet (.callCount (s.stage.bench.callCount name)), s)

def onStore (keys : KeySpace) (policy? : Option Policy) (steps : List Step) : List Report :=
  go steps .empty []
where
  go : List Step → State → List Report → List Report
    | [], _, reports => reports.reverse
    | step :: steps, s, reports =>
      let (report, s) := step.run keys policy? s
      go steps s (report :: reports)

def onLedger (requests : List Request) : List Report :=
  go requests .empty []
where
  go : List Request → Ledger → List Report → List Report
    | [], _, reports => reports.reverse
    | r :: requests, l, reports =>
      let (result, after) := l.answer r
      go requests after (⟨.answer result, 0, l.events r⟩ :: reports)

def metrics (backend : String) (reports : List Report) : Std.ExtTreeMap String Nat :=
  (reports.flatMap Report.events).foldl add ∅
where
  add (sums : Std.ExtTreeMap String Nat) (event : Event) : Std.ExtTreeMap String Nat :=
    match event.metric? backend with
    | some metric => sums.insert metric (sums.getD metric 0 + 1)
    | none => sums

end Rollup.Session
