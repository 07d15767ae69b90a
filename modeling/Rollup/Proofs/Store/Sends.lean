import Rollup.Proofs.Store.Contract

/-!
This module contains the commands that each request to counters in a store may send, whatever it is
replied.
-/

namespace Rollup.Store

variable {α : Type} {allowed : Command → Prop}

/--
A program sends no commands but allowed ones, reads of hashes at the same time aside.
-/
def Program.Sends (allowed : Command → Prop) : Program α → Prop
  | done _ => True
  | call c next => allowed c ∧ ∀ result, (next result).Sends allowed
  | readAll _ next => ∀ fetched, (next fetched).Sends allowed
  | report _ next => next.Sends allowed

namespace Program

theorem Sends.mono {allowed' : Command → Prop} {p : Program α} (h : p.Sends allowed)
    (himp : ∀ c, allowed c → allowed' c) : p.Sends allowed' := by
  induction p with
  | done result => trivial
  | call c rest ih => exact ⟨himp c h.1, fun result => ih result (h.2 result)⟩
  | readAll keys rest ih => exact fun fetched => ih fetched (h fetched)
  | report event rest ih => exact ih h

theorem Obeys.sends {p : Program α} (h : p.Obeys ⟨allowed, fun _ => True, fun _ _ => True⟩) :
    p.Sends allowed := by
  induction p with
  | done result => trivial
  | call c rest ih => exact ⟨h.1, fun result => ih result (h.2 result trivial)⟩
  | readAll keys rest ih => exact fun fetched => ih fetched (h.2 fetched)
  | report event rest ih => exact ih h

end Program

def Counters.MaySend (keys : KeySpace) (r : Request) (c : Command) : Prop :=
  match r with
  | .increment name amount instant =>
    (∃ level ∈ keys.levels name instant, c = .hincrby level.1 level.2 amount
      ∨ c = .sadd (keys.bookkeeping name) level.1)
      ∨ c = .sadd keys.names name ∨ c = .incrBy (keys.total name) amount
  | .reset name => c = .del (keys.total name) ∨ c = .smembers (keys.bookkeeping name)
      ∨ (∃ buckets, c = .batchDel buckets ∨ c = .srem (keys.bookkeeping name) buckets)
      ∨ c = .srem keys.names [name]
  | .list => c = .smembers keys.names
  | .total name => c = .get (keys.total name)
  | .counts name .. | .countsEnding name .. => c = .hgetall (keys.years name)

theorem Counters.sends_answer {keys : KeySpace} (r : Request) :
    (answer keys r).Sends (MaySend keys r) := by
  apply Program.Obeys.sends
  apply obeys_answer
  cases r with
  | increment name amount instant =>
    refine ⟨?_, Or.inr (Or.inl rfl), Or.inr (Or.inr rfl)⟩
    intro level hlevel
    exact ⟨Or.inl ⟨level, hlevel, Or.inl rfl⟩, Or.inl ⟨level, hlevel, Or.inr rfl⟩⟩
  | reset name =>
    refine ⟨Or.inl rfl, Or.inr (Or.inl rfl), ?_, Or.inr (Or.inr (Or.inr rfl))⟩
    intro buckets _
    exact ⟨Or.inr (Or.inr (Or.inl ⟨buckets, Or.inl rfl⟩)),
      Or.inr (Or.inr (Or.inl ⟨buckets, Or.inr rfl⟩))⟩
  | list => exact rfl
  | total name => exact rfl
  | counts name start finish r => exact ⟨rfl, fun _ _ => trivial⟩
  | countsEnding name n finish r => exact ⟨rfl, fun _ _ => trivial⟩

end Rollup.Store
