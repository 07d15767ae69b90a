import Rollup.Request

/-!
This module contains contracts between programs and the store they run on: which commands a program
may send, as long as the replies are what it relies on. The main statement is `obeys_answer`: a
request obeys every contract that covers the commands it is made of.
-/

namespace Rollup.Store

open Rollup.Time

variable {α β : Type}

/--
What a program may ask of a store, and which replies it relies on.
-/
structure Contract where
  sends : Command → Prop
  -- the keys of the hashes that may be read at the same time
  reads : String → Prop
  expects : (c : Command) → Except Failure c.Reply → Prop

/--
A program sends and reads only what its contract allows, up to the first reply that is not expected.
-/
def Program.Obeys (contract : Contract) : Program α → Prop
  | done _ => True
  | call c next =>
    contract.sends c ∧ ∀ result, contract.expects c result → (next result).Obeys contract
  | readAll keys next =>
    (∀ key ∈ keys, contract.reads key) ∧ ∀ fetched, (next fetched).Obeys contract
  | report _ next => next.Obeys contract

namespace Program

variable {contract : Contract}

theorem obeys_bind {p : Program α} {next : α → Program β} (h : p.Obeys contract)
    (hnext : ∀ a, (next a).Obeys contract) : (p.bind next).Obeys contract := by
  induction p with
  | done result =>
    cases result with
    | ok a => exact hnext a
    | error e => trivial
  | call c rest ih => exact ⟨h.1, fun result hresult => ih result (h.2 result hresult)⟩
  | readAll keys rest ih => exact ⟨h.1, fun fetched => ih fetched (h.2 fetched)⟩
  | report event rest ih => exact ih h

theorem obeys_map {p : Program α} (h : p.Obeys contract) (f : α → β) : (f <$> p).Obeys contract :=
  obeys_bind h fun _ => trivial

theorem obeys_send_bind {c : Command} {next : c.Reply → Program α} (h : contract.sends c)
    (hnext : ∀ reply, contract.expects c (.ok reply) → (next reply).Obeys contract) :
    ((send c).bind next).Obeys contract := by
  refine ⟨h, ?_⟩
  intro result hresult
  cases result with
  | ok reply => exact hnext reply hresult
  | error failure => trivial

theorem obeys_send {c : Command} (h : contract.sends c) : (send c).Obeys contract := by
  refine ⟨h, ?_⟩
  intro result _
  cases result <;> trivial

theorem obeys_branch {c : Prop} [Decidable c] {p q : Program α} (hp : p.Obeys contract)
    (hq : q.Obeys contract) : (if c then p else q).Obeys contract := by
  split
  · exact hp
  · exact hq

theorem obeys_lift (result : Except CounterError α) :
    (liftExcept result : Program α).Obeys contract := by
  cases result <;> trivial

theorem obeys_tell (event : Event) : (tell event).Obeys contract := trivial

end Program

/--
A contract allows everything that a request may ask of a store.
-/
def Contract.Covers (contract : Contract) (keys : KeySpace) : Request → Prop
  | .increment name amount instant =>
    (∀ level ∈ keys.levels name instant, contract.sends (.hincrby level.1 level.2 amount)
      ∧ contract.sends (.sadd (keys.bookkeeping name) level.1))
      ∧ contract.sends (.sadd keys.names name) ∧ contract.sends (.incrBy (keys.total name) amount)
  | .reset name => contract.sends (.del (keys.total name))
      ∧ contract.sends (.smembers (keys.bookkeeping name))
      ∧ (∀ buckets : List String, contract.expects (.smembers (keys.bookkeeping name)) (.ok buckets) →
        contract.sends (.batchDel buckets) ∧ contract.sends (.srem (keys.bookkeeping name) buckets))
      ∧ contract.sends (.srem keys.names [name])
  | .list => contract.sends (.smembers keys.names)
  | .total name => contract.sends (.get (keys.total name))
  | .counts name .. | .countsEnding name .. => contract.sends (.hgetall (keys.years name))
      ∧ ∀ b start, contract.reads (Bucket.key b keys name start)

namespace Counters

open Program

variable {contract : Contract} {keys : KeySpace} {name : String}

theorem obeys_countIn {bookkeeping key field : String} {amount : Count}
    (hcount : contract.sends (.hincrby key field amount))
    (hrecord : contract.sends (.sadd bookkeeping key)) :
    (countIn bookkeeping key field amount).Obeys contract := by
  apply obeys_send_bind hcount
  intro (value : Count) _
  apply obeys_branch
  · exact obeys_send hrecord
  · trivial

theorem obeys_countAll {amount : Count} {levels : List (String × String)}
    (h : ∀ level ∈ levels, contract.sends (.hincrby level.1 level.2 amount)
      ∧ contract.sends (.sadd (keys.bookkeeping name) level.1)) :
    (increment.countAll keys name amount levels).Obeys contract := by
  induction levels with
  | nil => trivial
  | cons level levels ih =>
    have ⟨hcount, hrecord⟩ := h level List.mem_cons_self
    apply obeys_bind (obeys_countIn hcount hrecord)
    intro _
    apply ih
    intro l hl
    exact h l (List.mem_cons_of_mem _ hl)

theorem obeys_increment {amount : Count} {instant : Instant}
    (h : contract.Covers keys (.increment name amount instant)) :
    (increment keys name amount instant).Obeys contract := by
  have ⟨hlevels, hname, htotal⟩ := h
  apply obeys_bind (obeys_lift _)
  intro _
  apply obeys_bind (obeys_countAll hlevels)
  intro _
  apply obeys_send_bind hname
  intro _ _
  apply obeys_send_bind htotal
  intro total _
  exact obeys_bind (obeys_tell _) fun _ => trivial

theorem obeys_reset (h : contract.Covers keys (.reset name)) :
    (reset keys name).Obeys contract := by
  have ⟨htotal, hlist, hbuckets, hname⟩ := h
  apply obeys_bind (obeys_lift _)
  intro _
  apply obeys_send_bind htotal
  intro _ _
  apply obeys_send_bind hlist
  intro buckets hlisted
  apply obeys_send_bind (hbuckets buckets hlisted).1
  intro _ _
  apply obeys_send_bind (hbuckets buckets hlisted).2
  intro _ _
  apply obeys_send_bind hname
  intro _ _
  exact obeys_tell _

theorem obeys_total (h : contract.Covers keys (.total name)) : (total keys name).Obeys contract := by
  apply obeys_bind (obeys_lift _)
  intro _
  refine ⟨h, ?_⟩
  intro result _
  cases result with
  | ok value => exact obeys_lift _
  | error failure => cases failure <;> trivial

theorem obeys_counts (hyears : contract.sends (.hgetall (keys.years name)))
    (hrows : ∀ b start, contract.reads (Bucket.key b keys name start)) (interval : Interval)
    (r : Resolution) : (counts keys name interval r).Obeys contract := by
  apply obeys_bind (obeys_lift _)
  intro _
  apply obeys_bind (obeys_tell _)
  intro _
  apply obeys_bind (p := (source keys).counts name interval r)
  · unfold Source.counts
    split
    · apply obeys_bind (p := yearCounts keys name)
      · apply obeys_send_bind hyears
        intro _ _
        exact obeys_bind (obeys_tell _) fun _ => trivial
      · exact fun _ => trivial
    · next b _ =>
      apply obeys_bind (obeys_lift _)
      intro starts
      apply obeys_bind (p := rows keys name b starts)
      · refine ⟨?_, ?_⟩
        · intro key hkey
          obtain ⟨start, _, rfl⟩ := List.mem_map.1 hkey
          exact hrows b start
        · intro fetched
          cases fetched with
          | all hashes => exact obeys_bind (obeys_tell _) fun _ => trivial
          | broken failure arrived => exact obeys_bind (obeys_tell _) fun _ => trivial
      · exact fun _ => obeys_lift _
  · exact fun _ => trivial

theorem obeys_answer {r : Request} (h : contract.Covers keys r) :
    (answer keys r).Obeys contract := by
  cases r with
  | increment name amount instant => exact obeys_map (obeys_increment h) _
  | reset name => exact obeys_map (obeys_reset h) _
  | list =>
    apply obeys_map
    apply obeys_send_bind (c := .smembers keys.names) h
    exact fun _ _ => trivial
  | total name => exact obeys_map (obeys_total h) _
  | counts name start finish r =>
    apply obeys_bind (obeys_lift _)
    intro interval
    exact obeys_map (obeys_counts h.1 h.2 interval r) _
  | countsEnding name n finish r =>
    apply obeys_bind (obeys_lift _)
    intro interval
    exact obeys_map (obeys_counts h.1 h.2 interval r) _

end Counters

end Rollup.Store
