import Rollup.Request

/-!
This module contains programs that end at the first failure of a command. Increments are such
programs.
-/

namespace Rollup

open Rollup.Time

def Request.IsIncrement : Request → Prop
  | .increment .. => True
  | _ => False

namespace Store

variable {α β : Type}

/--
A failure of a command ends a program, reads of hashes at the same time aside.
-/
def Program.Strict : Program α → Prop
  | done _ => True
  | call _ next => (∀ failure, ∃ e, next (.error failure) = done (.error e))
      ∧ ∀ reply, (next (.ok reply)).Strict
  | readAll _ next => ∀ fetched, (next fetched).Strict
  | report _ next => next.Strict

namespace Program

theorem strict_bind {p : Program α} {next : α → Program β} (h : p.Strict)
    (hnext : ∀ a, (next a).Strict) : (p.bind next).Strict := by
  induction p with
  | done result =>
    cases result with
    | ok a => exact hnext a
    | error e => trivial
  | call c rest ih =>
    refine ⟨?_, fun reply => ih (.ok reply) (h.2 reply)⟩
    intro failure
    obtain ⟨e, hdone⟩ := h.1 failure
    exact ⟨e, congrArg (·.bind next) hdone⟩
  | readAll keys rest ih => exact fun fetched => ih fetched (h fetched)
  | report event rest ih => exact ih h

theorem strict_send (c : Command) : (send c).Strict :=
  ⟨fun failure => ⟨.store failure, rfl⟩, fun _ => trivial⟩

theorem strict_branch {c : Prop} [Decidable c] {p q : Program α} (hp : p.Strict) (hq : q.Strict) :
    (if c then p else q).Strict := by
  split
  · exact hp
  · exact hq

theorem strict_lift (result : Except CounterError α) : (liftExcept result : Program α).Strict := by
  cases result <;> trivial

end Program

namespace Counters

open Program

variable {keys : KeySpace} {name : String}

theorem strict_countIn (bookkeeping key field : String) (amount : Count) :
    (countIn bookkeeping key field amount).Strict := by
  apply strict_bind (strict_send _)
  intro (value : Count)
  apply strict_branch
  · exact strict_send _
  · trivial

theorem strict_countAll (amount : Count) (levels : List (String × String)) :
    (increment.countAll keys name amount levels).Strict := by
  induction levels with
  | nil => trivial
  | cons level levels ih => exact strict_bind (strict_countIn _ _ _ _) fun _ => ih

theorem strict_increment (amount : Count) (instant : Instant) :
    (increment keys name amount instant).Strict := by
  apply strict_bind (strict_lift _)
  intro _
  apply strict_bind (strict_countAll amount _)
  intro _
  apply strict_bind (strict_send _)
  intro _
  apply strict_bind (strict_send _)
  intro _
  exact strict_bind trivial fun _ => trivial

theorem strict_answer {r : Request} (hr : r.IsIncrement) : (answer keys r).Strict := by
  cases r with
  | increment name amount instant =>
    exact strict_bind (strict_increment amount instant) fun _ => trivial
  | _ => cases hr

end Counters

end Store

end Rollup
