import Rollup.Proofs.Retry
import Rollup.Proofs.Store.Sent

/-!
This module contains the retry loop of a single command with its two limits kept apart: the waits
that are left, and the failures that were counted. The main statement is `retries_exactly`: both
limits agree, so that the loop sends the command as often as its policy allows and reports and waits
before every further attempt, and only then.
-/

namespace Rollup

open Rollup.Retry Rollup.Store Rollup.Time

namespace Store.Client

variable {σ : Type}

/--
The state behind a client after it has been sent the same command a number of times.
-/
def after (client : Client σ) (c : Command) (s : σ) : Nat → σ
  | 0 => s
  | n + 1 => (client c (client.after c s n)).2

/--
What a client answers when it is sent the same command again and again.
-/
def outcome (client : Client σ) (c : Command) (s : σ) (n : Nat) : Except Failure c.Reply :=
  (client c (client.after c s n)).1

end Store.Client

namespace Retry

inductive Step where
  | called (sent : Sent)
  | reported (event : Event)
  | waited (d : Duration)

structure Loop (σ : Type) where
  state : σ
  failures : Nat
  -- what was done, in its order
  steps : List Step

namespace Loop

variable {σ α : Type}

def call (client : Client σ) (c : Command) (l : Loop σ) : Except Failure c.Reply × Loop σ :=
  let (result, state) := client c l.state
  (result, { l with state, steps := l.steps ++ [.called ⟨c, result⟩] })

/--
Count a failure, and tell whether it allows to go on. If so, that is reported.
-/
def allows (p : Policy) (verb : Verb) (failure : Failure) (l : Loop σ) : Bool × Loop σ :=
  let l := { l with failures := l.failures + 1 }
  if ¬failure.IsTransient ∨ p.maxAttempts ≤ l.failures then
    (false, l)
  else
    (true, { l with steps := l.steps ++ [.reported (.retried verb)] })

/--
Repeat an action that fails. After each failure the condition is asked first, then the next delay is
taken, and the failure is the result if either refuses.
-/
def retryIf (action : Loop σ → Except Failure α × Loop σ)
    (condition : Failure → Loop σ → Bool × Loop σ) (delays : List Duration) (l : Loop σ) :
    Except Failure α × Loop σ :=
  match action l with
  | (.ok reply, l) => (.ok reply, l)
  | (.error failure, l) =>
    match condition failure l, delays with
    | (false, l), _ => (.error failure, l)
    | (true, l), [] => (.error failure, l)
    | (true, l), delay :: delays =>
      retryIf action condition delays { l with steps := l.steps ++ [.waited delay] }

/--
Send a command with one delay for each attempt that may follow the first one.
-/
def retry (p : Policy) (client : Client σ) (c : Command) (s : σ) :
    Except Failure c.Reply × Loop σ :=
  let delays := (List.range (p.maxAttempts - 1)).map p.wait
  retryIf (call client c) (allows p c.verb) delays ⟨s, 0, []⟩

end Loop

namespace Policy

/--
What comes of an attempt ends the loop, after a number of attempts that have failed.
-/
def Ends {α : Type} (p : Policy) (failed : Nat) : Except Failure α → Prop
  | .ok _ => True
  | .error failure => ¬failure.IsTransient ∨ failed = p.maxAttempts - 1

/--
The steps of a number of attempts that fail and are followed by another one.
-/
def failedSteps (p : Policy) (c : Command) (r : Nat → Except Failure c.Reply) (n : Nat) :
    List Step :=
  (List.range n).flatMap fun i =>
    [.called ⟨c, r i⟩, .reported (.retried c.verb), .waited (p.wait i)]

variable {σ : Type} (p : Policy) (client : Client σ) (c : Command) (s : σ)

theorem failedSteps_succ (r : Nat → Except Failure c.Reply) (n : Nat) :
    p.failedSteps c r (n + 1) = p.failedSteps c r n
      ++ [.called ⟨c, r n⟩, .reported (.retried c.verb), .waited (p.wait n)] := by
  unfold failedSteps
  rw [List.range_succ, List.flatMap_append, List.flatMap_singleton]

section

variable {p client c} {s s' : σ} {result : Except Failure c.Reply} {failed left : Nat}

theorem retryIf_of_ends (hcall : client c s = (result, s')) (hends : p.Ends failed result)
    (delays : List Duration) (steps : List Step) :
    ∃ failures, Loop.retryIf (Loop.call client c) (Loop.allows p c.verb) delays ⟨s, failed, steps⟩
      = (result, ⟨s', failures, steps ++ [.called ⟨c, result⟩]⟩) := by
  unfold Loop.retryIf Loop.call
  simp only [hcall]
  cases result with
  | ok reply => exact ⟨failed, rfl⟩
  | error failure =>
    have hone := p.one_le
    have hrefuses : ¬failure.IsTransient ∨ p.maxAttempts ≤ failed + 1 :=
      hends.imp_right fun h => by omega
    refine ⟨failed + 1, ?_⟩
    unfold Loop.allows
    simp only [if_pos hrefuses]

theorem retryIf_of_not_ends (hcall : client c s = (result, s')) (hends : ¬p.Ends failed result)
    (hfailed : failed ≤ p.maxAttempts - 1) (delay : Duration) (delays : List Duration)
    (steps : List Step) :
    Loop.retryIf (Loop.call client c) (Loop.allows p c.verb) (delay :: delays) ⟨s, failed, steps⟩
      = Loop.retryIf (Loop.call client c) (Loop.allows p c.verb) delays ⟨s', failed + 1,
        steps ++ [.called ⟨c, result⟩, .reported (.retried c.verb), .waited delay]⟩ := by
  rw [Loop.retryIf]
  unfold Loop.call
  simp only [hcall]
  cases result with
  | ok reply => exact absurd trivial hends
  | error failure =>
    have hgoes : ¬(¬failure.IsTransient ∨ p.maxAttempts ≤ failed + 1) := by
      rintro (h | h)
      · exact hends (Or.inl h)
      · exact hends (Or.inr (by omega))
    unfold Loop.allows
    simp only [if_neg hgoes, List.append_assoc]
    rfl

theorem attempt_go_of_ends (hcall : client c s = (result, s')) (hends : p.Ends failed result)
    (h : failed + left = p.maxAttempts - 1) :
    attempt.go p (client c) failed left s = (⟨result, []⟩, s') := by
  cases left with
  | zero =>
    unfold attempt.go
    rw [hcall]
  | succ left =>
    unfold attempt.go
    rw [hcall]
    cases result with
    | ok reply => rfl
    | error failure =>
      have hpasses : ¬failure.IsTransient := hends.resolve_right (by omega)
      simp only [if_neg hpasses]

theorem attempt_go_of_not_ends (hcall : client c s = (result, s')) (hends : ¬p.Ends failed result) :
    attempt.go p (client c) failed (left + 1) s
      = let out := attempt.go p (client c) (failed + 1) left s'
        (⟨out.1.result, p.wait failed :: out.1.waits⟩, out.2) := by
  rw [attempt.go, hcall]
  cases result with
  | ok reply => exact absurd trivial hends
  | error failure =>
    have hpasses : failure.IsTransient := Classical.not_not.1 fun h => hends (Or.inl h)
    simp only [if_pos hpasses]

end

/--
After some attempts that failed, the command is sent `n + 1` times more: the delays that are left
and the failures that were counted allow the same number of attempts.
-/
structure ExactFrom (failed left n : Nat) : Prop where
  ends : p.Ends (failed + n) (client.outcome c s (failed + n))
  goes_on : ∀ j < n, ¬p.Ends (failed + j) (client.outcome c s (failed + j))
  loop : ∃ failures, Loop.retryIf (Loop.call client c) (Loop.allows p c.verb)
      ((List.range' failed left).map p.wait)
      ⟨client.after c s failed, failed, p.failedSteps c (client.outcome c s) failed⟩
    = (client.outcome c s (failed + n), ⟨client.after c s (failed + n + 1), failures,
      p.failedSteps c (client.outcome c s) (failed + n)
        ++ [.called ⟨c, client.outcome c s (failed + n)⟩]⟩)
  attempt : attempt.go p (client c) failed left (client.after c s failed)
    = (⟨client.outcome c s (failed + n), (List.range' failed n).map p.wait⟩,
      client.after c s (failed + n + 1))

namespace ExactFrom

variable {p client c s} {failed left n : Nat}

theorem of_ends (h : failed + left = p.maxAttempts - 1)
    (hends : p.Ends failed (client.outcome c s failed)) : p.ExactFrom client c s failed left 0 where
  ends := hends
  goes_on := fun j hj => absurd hj (Nat.not_lt_zero j)
  loop := retryIf_of_ends rfl hends _ _
  attempt := attempt_go_of_ends rfl hends h

theorem of_not_ends (h : failed + (left + 1) = p.maxAttempts - 1)
    (hends : ¬p.Ends failed (client.outcome c s failed))
    (hrest : p.ExactFrom client c s (failed + 1) left n) :
    p.ExactFrom client c s failed (left + 1) (n + 1) := by
  have hcall : client c (client.after c s failed)
      = (client.outcome c s failed, client.after c s (failed + 1)) := rfl
  have hshift : ∀ j, failed + (j + 1) = failed + 1 + j := by
    intro j
    omega
  constructor
  case ends =>
    rw [hshift n]
    exact hrest.ends
  case goes_on =>
    intro j hj
    cases j with
    | zero => exact hends
    | succ j =>
      rw [hshift j]
      exact hrest.goes_on j (Nat.lt_of_succ_lt_succ hj)
  case loop =>
    obtain ⟨failures, hloop⟩ := hrest.loop
    refine ⟨failures, ?_⟩
    rw [List.range'_succ, List.map_cons, retryIf_of_not_ends hcall hends (by omega),
      ← failedSteps_succ, hshift n]
    exact hloop
  case attempt =>
    rw [attempt_go_of_not_ends hcall hends, hrest.attempt, hshift n, List.range'_succ,
      List.map_cons]

end ExactFrom

theorem ends_of_eq {α : Type} {p : Policy} {failed : Nat} (h : failed = p.maxAttempts - 1)
    (result : Except Failure α) : p.Ends failed result := by
  cases result with
  | ok reply => trivial
  | error failure => exact Or.inr h

theorem exists_exactFrom {failed left : Nat} (h : failed + left = p.maxAttempts - 1) :
    ∃ n, p.ExactFrom client c s failed left n := by
  induction left generalizing failed with
  | zero => exact ⟨0, .of_ends h (ends_of_eq h _)⟩
  | succ left ih =>
    by_cases hends : p.Ends failed (client.outcome c s failed)
    · exact ⟨0, .of_ends h hends⟩
    · have hleft : failed + 1 + left = p.maxAttempts - 1 := by omega
      obtain ⟨n, hrest⟩ := ih hleft
      exact ⟨n + 1, .of_not_ends h hends hrest⟩

theorem send_retrying_of_attempt {p : Policy} {client : Client σ} {c : Command} {s s' : σ} {n : Nat}
    {result : Except Failure c.Reply}
    (h : p.attempt (client c) s = (⟨result, (List.range n).map p.wait⟩, s')) :
    (Observed.retrying p client).send c (.start s) = (result,
      ⟨s', ((List.range n).map fun i => (p.wait i).millisCeil).sum,
        List.replicate n (.retried c.verb)⟩) := by
  simp only [Observed.retrying, Observed.start, h, List.map_map, List.length_map,
    List.length_range, List.nil_append, Nat.zero_add]
  rfl

/--
A command is sent until its outcome ends the loop, which is the answer. Before every further attempt
it is reported once that there will be one, and the wait for that attempt is taken; after the last
one nothing is.
-/
theorem retries_exactly (p : Policy) (client : Client σ) (c : Command) (s : σ) (backend : String) :
    let r := client.outcome c s
    ∃ k, (p.Ends k (r k) ∧ ∀ j < k, ¬p.Ends j (r j))
      ∧ (let out := Loop.retry p client c s
        out.1 = r k ∧ out.2.state = client.after c s (k + 1)
          ∧ out.2.steps = p.failedSteps c r k ++ [.called ⟨c, r k⟩])
      ∧ let out := (Observed.retrying p client).send c (.start s)
        (out.1 = r k ∧ out.2.state = client.after c s (k + 1))
          ∧ out.2.millis = ((List.range k).map fun i => (p.wait i).millisCeil).sum
          ∧ out.2.events = List.replicate k (.retried c.verb)
          ∧ (out.2.events.map Event.warnings).sum = k
          ∧ out.2.events.map (Event.metric? backend) = List.replicate k
            (some s!"aggregate_counter_backend_retries_total\x7bop={c.verb.name}\x7d") := by
  intro r
  obtain ⟨k, hends, hgoes, ⟨failures, hloop⟩, hattempt⟩ :=
    p.exists_exactFrom client c s (Nat.zero_add (p.maxAttempts - 1))
  simp only [Nat.zero_add, ← List.range_eq_range'] at hends hgoes hloop hattempt
  refine ⟨k, ⟨hends, hgoes⟩, ?_, ?_⟩
  · have hretry : Loop.retry p client c s = _ := hloop
    rw [hretry]
    exact ⟨rfl, rfl, rfl⟩
  · have hsend : p.attempt (client c) s = _ := hattempt
    rw [send_retrying_of_attempt hsend]
    refine ⟨⟨rfl, rfl⟩, rfl, rfl, ?_, ?_⟩
    · rw [List.map_replicate, List.sum_replicate_nat]
      exact Nat.mul_one k
    · rw [List.map_replicate]
      rfl

end Policy

end Retry

end Rollup
