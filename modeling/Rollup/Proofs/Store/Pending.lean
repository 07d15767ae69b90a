import Rollup.Store.Bench

/-!
This module contains the failures that are queued for each kind of command: a command meets the
first one queued for its kind, and those of other kinds stay.
-/

namespace Rollup.Store

variable {α : Type} {verb : Verb}

def queuedFor (verb : Verb) : List (Verb × α) → List α
  | [] => []
  | entry :: queue =>
    if entry.1 = verb then entry.2 :: queuedFor verb queue else queuedFor verb queue

theorem mem_queuedFor {queue : List (Verb × α)} {a : α} :
    a ∈ queuedFor verb queue ↔ (verb, a) ∈ queue := by
  induction queue with
  | nil => simp [queuedFor]
  | cons entry queue ih =>
    unfold queuedFor
    split
    · next hverb => simp [ih, Prod.ext_iff, hverb]
    · next hverb => simp [ih, Prod.ext_iff, Ne.symm hverb]

theorem queuedFor_of_takeFirst_eq_none {queue : List (Verb × α)} (h : takeFirst verb queue = none) :
    queuedFor verb queue = [] := by
  induction queue with
  | nil => rfl
  | cons entry queue ih =>
    unfold takeFirst at h
    unfold queuedFor
    split at h
    · cases h
    · next hverb =>
      rw [if_neg hverb]
      exact ih (Option.map_eq_none_iff.1 h)

theorem queuedFor_of_takeFirst_eq_some {queue rest : List (Verb × α)} {a : α}
    (h : takeFirst verb queue = some (a, rest)) (other : Verb) :
    queuedFor other queue = if other = verb then a :: queuedFor verb rest else queuedFor other rest := by
  induction queue generalizing rest with
  | nil => cases h
  | cons entry queue ih =>
    unfold takeFirst at h
    split at h
    · next hverb =>
      cases h
      rw [queuedFor]
      subst hverb
      by_cases hother : other = entry.1
      · subst hother
        rw [if_pos rfl]
      · rw [if_neg (Ne.symm hother), if_neg hother]
    · next hverb =>
      obtain ⟨⟨b, between⟩, htake, heq⟩ := Option.map_eq_some_iff.1 h
      cases heq
      have hrest := ih htake
      unfold queuedFor
      rw [hrest, if_neg hverb]
      -- the entry is of another kind, so it stays before the rest of its kind
      by_cases hother : other = verb
      · subst hother
        rw [if_neg hverb, if_pos rfl, if_pos rfl]
      · rw [if_neg hother, if_neg hother]

namespace Bench

def pending (verb : Verb) (bench : Bench) : List Failure :=
  queuedFor verb bench.failures

variable {c : Command} {bench : Bench} {failure : Failure} {rest : List Failure}

theorem takeFirst_eq_none_iff (bench : Bench) :
    takeFirst verb bench.failures = none ↔ bench.pending verb = [] := by
  refine ⟨queuedFor_of_takeFirst_eq_none, ?_⟩
  intro h
  cases htake : takeFirst verb bench.failures with
  | none => rfl
  | some taken =>
    have hsome := queuedFor_of_takeFirst_eq_some htake verb
    rw [if_pos rfl] at hsome
    exact absurd (hsome.symm.trans h) (List.cons_ne_nil _ _)

theorem send_of_pending_eq_nil (h : bench.pending c.verb = []) :
    (send c bench).1 = (Data.send c bench.data).1
      ∧ (send c bench).2.data = (Data.send c bench.data).2 := by
  have hnone := (takeFirst_eq_none_iff bench).2 h
  unfold send
  simp only [hnone, and_self]

theorem send_of_pending_eq_cons (h : bench.pending c.verb = failure :: rest) :
    (send c bench).1 = .error failure ∧ (send c bench).2.data = bench.data := by
  unfold send
  cases htake : takeFirst c.verb bench.failures with
  | none =>
    rw [(takeFirst_eq_none_iff bench).1 htake] at h
    cases h
  | some taken =>
    have hsome := queuedFor_of_takeFirst_eq_some htake c.verb
    rw [if_pos rfl] at hsome
    cases hsome.symm.trans h
    simp [htake]

theorem pending_send (c : Command) (bench : Bench) (verb : Verb) :
    (send c bench).2.pending verb
      = if verb = c.verb then (bench.pending verb).tail else bench.pending verb := by
  unfold send
  cases htake : takeFirst c.verb bench.failures with
  | none =>
    simp only [htake]
    split
    · next hverb =>
      rw [hverb]
      change bench.pending c.verb = _
      rw [(takeFirst_eq_none_iff bench).1 htake, List.tail_nil]
    · rfl
  | some taken =>
    simp only [htake]
    unfold pending
    simp only
    rw [queuedFor_of_takeFirst_eq_some htake verb]
    split
    · next hverb => rw [hverb, List.tail_cons]
    · rfl

theorem mem_pending_failNext {v : Verb} {f : Failure} {times : Nat}
    (h : f ∈ (bench.failNext v failure times).pending verb) :
    f ∈ bench.pending verb ∨ f = failure := by
  rw [pending, mem_queuedFor, failNext, List.mem_append] at h
  rcases h with h | h
  · exact Or.inl (mem_queuedFor.2 h)
  · exact Or.inr (congrArg Prod.snd (List.eq_of_mem_replicate h))

end Bench

end Rollup.Store
