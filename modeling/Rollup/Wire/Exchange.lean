import Rollup.Request
import Rollup.Retry.Observed
import Rollup.Wire.Value

/-!
This module contains the exchange with a server whose replies are given in advance. Several reads at
the same time are all sent before the first reply is looked at.
-/

namespace Rollup.Wire

open Rollup.Store Rollup.Retry

/--
The replies that a server still has to give, and the commands that it was sent.
-/
structure Exchange where
  replies : List String
  sent : List (List String)

namespace Exchange

def unscripted : String := "-ERR unscripted\r\n"

/--
The value of the next reply. A text that is no reply breaks the exchange.
-/
def receive (text : String) : Except Failure Value :=
  match Value.ofText? text with
  | none => .error (.reported .parseError "Failed to parse the reply" none)
  | some value =>
    match value.fault? with
    | some failure => .error failure
    | none => .ok value

def send : Client Exchange := fun c exchange =>
  match c, wordsOf? c with
  | .srem .., none => (.ok (), exchange)
  | .batchDel _, none => (.ok (), exchange)
  | c, words? =>
    let reply := exchange.replies.headD unscripted
    let after : Exchange := ⟨exchange.replies.drop 1, exchange.sent ++ words?.toList⟩
    match receive reply with
    | .ok value => (value.toReply c, after)
    | .error failure => (.error failure, after)

end Exchange

def sendRound {σ : Type} (client : Client σ) :
    List Pending → σ → List (Pending × Except Failure Hash) × σ
  | [], s => ([], s)
  | a :: round, s =>
    let (result, s) := client (.hgetall a.key) s
    let (results, s) := sendRound client round s
    ((a, result) :: results, s)

/--
Send the reads of a reading in rounds, those of one time together, for at most the given number of
rounds.
-/
def drainRounds {σ : Type} (p : Policy) (client : Client σ) :
    Nat → Reading → σ → Fetched × σ
  | 0, r, s => (.all (r.arrived.map fun hash? => hash?.getD ∅), s)
  | rounds + 1, r, s =>
    match r.turn with
    | .over fetched => (fetched, s)
    | .send a now =>
      let (others, queue) := now.queue.span fun b => b.due = a.due
      let (results, s) := sendRound client (a :: others) s
      let settled := results.foldl (fun r (a, result) => p.settle a result r) { now with queue }
      drainRounds p client rounds settled s

/--
Read the hashes at some keys at the same time. Every round uses up some of the times that the reads
may be sent, so there are no more rounds than those.
-/
def readTogether {σ : Type} (p : Policy) (client : Client σ) (keys : List String) (s : σ) :
    Fetched × σ :=
  let reading := Reading.start p.maxAttempts keys
  drainRounds p client (Pending.attemptsLeft reading.queue + 1) reading s

def runtime (p : Policy) : Runtime Exchange where
  send c exchange :=
    let (attempts, exchange) := p.attempt (Exchange.send c) exchange
    (attempts.result, exchange)
  readAll keys exchange := readTogether p Exchange.send keys exchange
  report _ exchange := exchange

def answer (keys : KeySpace) (p : Policy) (replies : List String) (r : Request) :
    Except CounterError Answer × List (List String) :=
  let (result, exchange) := (Counters.answer keys r).run (runtime p) ⟨replies, []⟩
  (result, exchange.sent)

def reply (replies : List String) (c : Command) :
    Except Failure c.Reply × List (List String) :=
  let (result, exchange) := Exchange.send c ⟨replies, []⟩
  (result, exchange.sent)

end Rollup.Wire
