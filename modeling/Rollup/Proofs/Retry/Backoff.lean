import Rollup.Proofs.Retry
import Rollup.Proofs.Retry.Words

/-!
This module contains how long a policy makes commands wait: before each further attempt, for all
attempts of a command together, and while several hashes are read at the same time. The main
statement is `waits_exactly`.
-/

namespace Rollup.Retry

open Rollup.Store Rollup.Time

-- powers and sums mean the same whatever else is imported
attribute [local instance (high)] instPowNat Zero.ofOfNat0

theorem sum_map_le {α : Type} {l : List α} {f : α → Nat} {bound : Nat} (h : ∀ a ∈ l, f a ≤ bound) :
    (l.map f).sum ≤ l.length * bound := by
  induction l with
  | nil => exact Nat.zero_le _
  | cons a l ih =>
    have hfirst := h a List.mem_cons_self
    have hrest := ih fun b hb => h b (List.mem_cons_of_mem _ hb)
    rw [List.map_cons, List.sum_cons, List.length_cons, Nat.succ_mul]
    omega

theorem sum_map_range_succ {α : Type} (f : Nat → α) (g : α → Nat) (n : Nat) :
    (((List.range (n + 1)).map f).map g).sum = (((List.range n).map f).map g).sum + g (f n) := by
  simp only [List.range_succ, List.map_append, List.sum_append, List.map_cons, List.map_nil,
    List.sum_cons, List.sum_nil, Nat.add_zero]

namespace Policy

variable {p : Policy} {maximum : Duration} {a b n : Nat}

theorem nanos_wait_le (h : p.maximum = some maximum) (attempt : Nat) :
    (p.wait attempt).nanos ≤ maximum.nanos := by
  rw [nanos_wait]
  simp only [h]
  exact Nat.min_le_right _ _

theorem nanos_wait_mono (h : 1 ≤ p.coefficient) (hab : a ≤ b) :
    (p.wait a).nanos ≤ (p.wait b).nanos := by
  have hpower : p.coefficient ^ a ≤ p.coefficient ^ b := Nat.pow_le_pow_right h hab
  have hgrowth : min (p.coefficient ^ a) (2 ^ (32 : Nat) - 1)
      ≤ min (p.coefficient ^ b) (2 ^ (32 : Nat) - 1) := by omega
  have hexact := Nat.mul_le_mul_left p.initial.nanos hgrowth
  rw [nanos_wait, nanos_wait]
  -- both are cut off at the same places
  cases p.maximum with
  | none =>
    simp only
    omega
  | some maximum =>
    simp only
    omega

/--
The first waits of a policy.
-/
def delays (p : Policy) (n : Nat) : List Duration :=
  (List.range n).map p.wait

theorem sum_delays_le {f : Duration → Nat} {bound : Nat} (h : ∀ attempt, f (p.wait attempt) ≤ bound)
    (n : Nat) : ((p.delays n).map f).sum ≤ n * bound := by
  have hdelays : ∀ d ∈ p.delays n, f d ≤ bound := by
    intro d hd
    obtain ⟨attempt, -, rfl⟩ := List.mem_map.1 hd
    exact h attempt
  have hle := sum_map_le hdelays
  rwa [delays, List.length_map, List.length_range] at hle

section

variable {σ α : Type} (send : σ → Except Failure α × σ)

theorem waits_attempt_go (failed left : Nat) (s : σ) : ∃ n ≤ left,
    (attempt.go p send failed left s).1.waits = (List.range' failed n).map p.wait := by
  induction left generalizing failed s with
  | zero => exact ⟨0, Nat.le_refl 0, rfl⟩
  | succ left ih =>
    unfold attempt.go
    cases send s with
    | mk result after =>
      cases result with
      | ok reply => exact ⟨0, Nat.zero_le _, rfl⟩
      | error failure =>
        simp only
        split
        · obtain ⟨n, hn, hwaits⟩ := ih (failed + 1) after
          refine ⟨n + 1, Nat.succ_le_succ hn, ?_⟩
          rw [List.range'_succ, List.map_cons, ← hwaits]
        · exact ⟨0, Nat.zero_le _, rfl⟩

/--
A command waits as its policy says, and not after the last attempt.
-/
theorem waits_attempt (p : Policy) (s : σ) :
    ∃ n ≤ p.maxAttempts - 1, (p.attempt send s).1.waits = p.delays n := by
  obtain ⟨n, hn, hwaits⟩ := waits_attempt_go send (p := p) 0 (p.maxAttempts - 1) s
  refine ⟨n, hn, ?_⟩
  rw [delays, List.range_eq_range']
  exact hwaits

end

/--
The time after a number of waits, each of which ends at a whole millisecond.
-/
def waited (p : Policy) (n : Nat) : Nat :=
  ((p.delays n).map Duration.millisCeil).sum

theorem waited_succ (p : Policy) (n : Nat) :
    p.waited (n + 1) = p.waited n + (p.wait n).millisCeil :=
  sum_map_range_succ p.wait Duration.millisCeil n

theorem waited_mono (h : a ≤ b) : p.waited a ≤ p.waited b := by
  induction h with
  | refl => exact Nat.le_refl _
  | step _ ih => exact Nat.le_trans ih (by rw [Nat.succ_eq_add_one, waited_succ]; omega)

end Policy

theorem Pending.pairwise_enqueue {a : Pending} {queue : List Pending}
    (h : queue.Pairwise fun a b => a.due ≤ b.due) :
    (a.enqueue queue).Pairwise fun a b => a.due ≤ b.due := by
  induction queue with
  | nil => exact List.pairwise_singleton _ a
  | cons b queue ih =>
    obtain ⟨hfirst, hrest⟩ := List.pairwise_cons.1 h
    unfold enqueue
    split
    · next hbefore =>
      have hle : a.due ≤ b.due := by
        unfold before at hbefore
        grind
      refine List.pairwise_cons.2 ⟨?_, h⟩
      intro c hc
      rcases List.mem_cons.1 hc with rfl | hc
      · exact hle
      · exact Nat.le_trans hle (hfirst c hc)
    · next hbefore =>
      have hle : b.due ≤ a.due := by
        unfold before at hbefore
        grind
      refine List.pairwise_cons.2 ⟨?_, ih hrest⟩
      intro c hc
      rcases Pending.mem_enqueue.1 hc with rfl | hc
      · exact hle
      · exact hfirst c hc

namespace Reading

/--
A reading goes on in the order of time: each read that is still to be sent is due after its own
waits and not in the past, so that no read waits for another one.
-/
structure Paced (p : Policy) (r : Reading) : Prop where
  due_eq : ∀ a ∈ r.queue, a.due = p.waited a.failed
  total : ∀ a ∈ r.queue, a.failed + a.left = p.maxAttempts - 1
  sorted : r.queue.Pairwise fun a b => a.due ≤ b.due
  clock_le : ∀ a ∈ r.queue, r.clock ≤ a.due
  bounded : r.clock ≤ p.waited (p.maxAttempts - 1)

theorem clock_of_turn_eq_send {r now : Reading} {a : Pending} (h : r.turn = .send a now) :
    now.clock = max r.clock a.due := by
  unfold turn at h
  split at h
  · cases h
  · cases h
  · cases h
    rfl
  · split at h
    · cases h
    · cases h
      rfl

theorem clock_fail (r : Reading) (place : Nat) (failure : Failure) :
    (r.fail place failure).clock = r.clock := by
  unfold fail
  split
  · rfl
  · split <;> rfl

namespace Paced

variable {p : Policy} {r now : Reading} {a : Pending}

theorem of_eq {r' : Reading} (h : r.Paced p) (hqueue : r'.queue = r.queue)
    (hclock : r'.clock = r.clock) : r'.Paced p := by
  obtain ⟨hdue, htotal, hsorted, hle, hbounded⟩ := h
  constructor
  case due_eq => rwa [hqueue]
  case total => rwa [hqueue]
  case sorted => rwa [hqueue]
  case clock_le => rwa [hqueue, hclock]
  case bounded => rwa [hclock]

theorem start (p : Policy) (keys : List String) : (Reading.start p.maxAttempts keys).Paced p := by
  have hqueue : ∀ a ∈ (Reading.start p.maxAttempts keys).queue,
      a.due = 0 ∧ a.failed = 0 ∧ a.left = p.maxAttempts - 1 := by
    intro a ha
    obtain ⟨place, hplace, rfl⟩ := List.mem_mapIdx.1 ha
    exact ⟨rfl, rfl, rfl⟩
  constructor
  case due_eq =>
    intro a ha
    obtain ⟨hdue, hfailed, -⟩ := hqueue a ha
    rw [hdue, hfailed]
    rfl
  case total =>
    intro a ha
    obtain ⟨-, hfailed, hleft⟩ := hqueue a ha
    rw [hfailed, hleft, Nat.zero_add]
  case sorted =>
    rw [List.pairwise_iff_getElem]
    intro i j hi hj _
    rw [(hqueue _ (List.getElem_mem hi)).1]
    exact Nat.zero_le _
  case clock_le => exact fun a _ => Nat.zero_le _
  case bounded => exact Nat.zero_le _

theorem of_send (h : r.Paced p) (hturn : r.turn = .send a now) :
    now.Paced p ∧ now.clock = p.waited a.failed ∧ a.failed + a.left = p.maxAttempts - 1 := by
  have hqueue := queue_of_turn_eq_send hturn
  have hclock := clock_of_turn_eq_send hturn
  have ha : a ∈ r.queue := hqueue ▸ List.mem_cons_self
  have hle := h.clock_le a ha
  have hnow : now.clock = a.due := by omega
  have hrest : ∀ b ∈ now.queue, b ∈ r.queue := fun b hb => hqueue ▸ List.mem_cons_of_mem _ hb
  have hsorted := h.sorted
  rw [hqueue, List.pairwise_cons] at hsorted
  have hdue := h.due_eq a ha
  have htotal := h.total a ha
  refine ⟨?_, hnow.trans hdue, htotal⟩
  constructor
  case due_eq => exact fun b hb => h.due_eq b (hrest b hb)
  case total => exact fun b hb => h.total b (hrest b hb)
  case sorted => exact hsorted.2
  case clock_le =>
    intro b hb
    rw [hnow]
    exact hsorted.1 b hb
  case bounded =>
    rw [hnow, hdue]
    exact Policy.waited_mono (by omega)

/--
A reading stays in the order of time, whatever comes of the read that was sent.
-/
theorem settle (h : r.Paced p) (hturn : r.turn = .send a now) (result : Except Failure Hash) :
    (p.settle a result now).Paced p := by
  obtain ⟨hnow, hclock, htotal⟩ := h.of_send hturn
  unfold Policy.settle
  split
  · exact ⟨hnow.due_eq, hnow.total, hnow.sorted, hnow.clock_le, hnow.bounded⟩
  · split
    · next hagain =>
      constructor
      case due_eq =>
        intro b hb
        rcases Pending.mem_enqueue.1 hb with rfl | hb
        · simp only [Policy.waited_succ, hclock]
        · exact hnow.due_eq b hb
      case total =>
        intro b hb
        rcases Pending.mem_enqueue.1 hb with rfl | hb
        · simp only
          omega
        · exact hnow.total b hb
      case sorted => exact Pending.pairwise_enqueue hnow.sorted
      case clock_le =>
        intro b hb
        rcases Pending.mem_enqueue.1 hb with rfl | hb
        · exact Nat.le_add_right _ _
        · exact hnow.clock_le b hb
      case bounded => exact hnow.bounded
    · exact hnow.of_eq (queue_fail _ _ _) (clock_fail _ _ _)

end Paced

variable {σ : Type} {p : Policy} {r : Reading}

theorem clock_drain_le (client : Client σ) (h : r.Paced p) (s : σ) :
    (p.drain client r s).2.1.clock ≤ p.waited (p.maxAttempts - 1) := by
  induction r, s using Policy.drain.induct p client with
  | case1 r s fetched hturn =>
    rw [Policy.drain_of_over hturn]
    exact h.bounded
  | case2 r s a now hturn hqueue result after hafter ih =>
    rw [Policy.drain_of_send hturn, hafter]
    exact ih (h.settle hturn result)

theorem clock_readAll_le (p : Policy) (client : Client σ) (keys : List String) (s : σ) :
    (p.readAll client keys s).2.1.clock ≤ p.waited (p.maxAttempts - 1) :=
  clock_drain_le client (.start p keys) s

end Reading

namespace Policy

theorem millisCeil_wait_le {p : Policy} {maximum : Duration} (h : p.maximum = some maximum)
    (attempt : Nat) : (p.wait attempt).millisCeil ≤ maximum.millisCeil := by
  have hle := nanos_wait_le h attempt
  unfold Duration.millisCeil
  omega

/--
A policy waits as exact arithmetic says, cut off at the largest factor, at the longest duration and
at its maximum, and so it does in words of 32 and 64 bits. No wait is longer than the maximum, and if
the coefficient is not zero, no wait is shorter than the one before it. A command takes the waits of
its policy in their order, at most as many as there are attempts after the first one. That bounds
their sum, and the time that several hashes take when they are read at the same time.
-/
theorem waits_exactly (p : Policy) :
    (∀ attempt, (p.wait attempt).nanos =
        let exact := p.initial.nanos * min (p.coefficient ^ attempt) (2 ^ (32 : Nat) - 1)
        let bounded := min exact Duration.longest.nanos
        match p.maximum with
        | none => bounded
        | some maximum => min bounded maximum.nanos)
      ∧ (∀ attempt, p.waitInWords attempt = p.wait attempt)
      ∧ (∀ maximum, p.maximum = some maximum →
        ∀ attempt, (p.wait attempt).nanos ≤ maximum.nanos)
      ∧ (1 ≤ p.coefficient → ∀ a b, a ≤ b → (p.wait a).nanos ≤ (p.wait b).nanos)
      ∧ (∀ (σ α : Type) (send : σ → Except Failure α × σ) (s : σ), ∃ n ≤ p.maxAttempts - 1,
        (p.attempt send s).1.waits = (List.range n).map p.wait
          ∧ ∀ maximum, p.maximum = some maximum →
            (((p.attempt send s).1.waits).map Duration.nanos).sum
              ≤ (p.maxAttempts - 1) * maximum.nanos)
      ∧ ∀ maximum, p.maximum = some maximum →
        ∀ (σ : Type) (client : Client σ) (keys : List String) (s : σ),
          (p.readAll client keys s).2.1.clock ≤ (p.maxAttempts - 1) * maximum.millisCeil := by
  refine ⟨p.nanos_wait, p.waitInWords_eq_wait, fun _ => nanos_wait_le,
    fun h _ _ => nanos_wait_mono h, ?_, ?_⟩
  · intro σ α send s
    obtain ⟨n, hn, hwaits⟩ := waits_attempt send p s
    refine ⟨n, hn, hwaits, ?_⟩
    intro maximum hmaximum
    rw [hwaits]
    exact Nat.le_trans (sum_delays_le (nanos_wait_le hmaximum) n) (Nat.mul_le_mul_right _ hn)
  · intro maximum hmaximum σ client keys s
    exact Nat.le_trans (Reading.clock_readAll_le p client keys s)
      (sum_delays_le (millisCeil_wait_le hmaximum) _)

theorem waits_exactly_for_timeouts :
    let maximum := Duration.ofSeconds 4
    let p := of 4 3 (Duration.ofMillis 1500) (some maximum)
    let send : Nat → Except Failure Unit × Nat := fun calls => (.error .timeout, calls + 1)
    let client : Client Nat := fun _ calls => (.error .timeout, calls + 1)
    (p.wait 2).nanos ≤ (p.wait 200).nanos
      ∧ (p.wait 200).nanos ≤ maximum.nanos
      ∧ ((p.attempt send 0).1.waits.map Duration.nanos).sum ≤ 3 * maximum.nanos
      ∧ (p.readAll client ["a", "b"] 0).2.1.clock ≤ 3 * maximum.millisCeil := by
  intro maximum p send client
  obtain ⟨-, -, hmaximum, hmono, hwaits, hreads⟩ := waits_exactly p
  obtain ⟨-, -, -, hsum⟩ := hwaits Nat Unit send 0
  exact ⟨hmono (by decide) 2 200 (by decide), hmaximum maximum rfl 200, hsum maximum rfl,
    hreads maximum rfl Nat client ["a", "b"] 0⟩

end Policy

end Rollup.Retry
