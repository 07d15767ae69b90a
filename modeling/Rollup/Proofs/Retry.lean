import Mathlib.Algebra.Ring.Int.Defs
import Mathlib.Algebra.Ring.Nat
import Rollup.Retry.Observed

/-!
This module contains what is known of commands that are sent again when they fail: only the last
attempt counts where the failed ones leave alone what matters, and clients that cannot be told apart
by single attempts cannot be told apart at all.
-/

namespace Rollup.Retry

open Rollup.Store

variable {σ τ α : Type} {P : σ → Prop} {R : σ → τ → Prop}

theorem Pending.mem_enqueue {a b : Pending} {queue : List Pending} :
    b ∈ a.enqueue queue ↔ b = a ∨ b ∈ queue := by
  induction queue with
  | nil => simp [enqueue]
  | cons c queue ih =>
    unfold enqueue
    split
    · exact List.mem_cons
    · rw [List.mem_cons, ih, List.mem_cons, or_left_comm]

namespace Policy

variable {p : Policy} {client : Client σ} {client' : Client τ}

section

variable {send : σ → Except Failure α × σ} {send' : τ → Except Failure α × τ}

theorem attempt_go_last
    (hfails : ∀ s failure, P s → (send s).1 = .error failure → P (send s).2)
    (failed left : Nat) {s : σ} (hs : P s) :
    ∃ last, P last ∧ (attempt.go p send failed left s).1.result = (send last).1
      ∧ (attempt.go p send failed left s).2 = (send last).2 := by
  induction left generalizing failed s with
  | zero => exact ⟨s, hs, rfl, rfl⟩
  | succ left ih =>
    unfold attempt.go
    have hafter := hfails s
    cases hsend : send s with
    | mk result after =>
      simp only [hsend] at hafter ⊢
      cases result with
      | ok reply => exact ⟨s, hs, by simp [hsend]⟩
      | error failure =>
        simp only
        split
        · exact ih (failed + 1) (hafter failure hs rfl)
        · exact ⟨s, hs, by simp [hsend]⟩

/--
What comes of a command is what comes of the last attempt, and before that attempt everything is true
that failed attempts leave true.
-/
theorem attempt_last
    (hfails : ∀ s failure, P s → (send s).1 = .error failure → P (send s).2) {s : σ} (hs : P s) :
    ∃ last, P last ∧ (p.attempt send s).1.result = (send last).1
      ∧ (p.attempt send s).2 = (send last).2 :=
  attempt_go_last hfails 0 (p.maxAttempts - 1) hs

theorem attempt_go_related
    (h : ∀ s t, R s t → (send s).1 = (send' t).1 ∧ R (send s).2 (send' t).2)
    (failed left : Nat) {s : σ} {t : τ} (hst : R s t) :
    (attempt.go p send failed left s).1 = (attempt.go p send' failed left t).1
      ∧ R (attempt.go p send failed left s).2 (attempt.go p send' failed left t).2 := by
  induction left generalizing failed s t with
  | zero =>
    obtain ⟨hresult, hafter⟩ := h s t hst
    exact ⟨congrArg (Attempts.mk · []) hresult, hafter⟩
  | succ left ih =>
    obtain ⟨hresult, hafter⟩ := h s t hst
    unfold attempt.go
    generalize send s = out at hresult hafter ⊢
    generalize send' t = out' at hresult hafter ⊢
    obtain ⟨result, after⟩ := out
    obtain ⟨result', after'⟩ := out'
    cases hresult
    cases result with
    | ok reply => exact ⟨rfl, hafter⟩
    | error failure =>
      simp only
      split
      · obtain ⟨hattempts, hrest⟩ := ih (failed + 1) hafter
        exact ⟨by rw [hattempts], hrest⟩
      · exact ⟨rfl, hafter⟩

theorem attempt_related
    (h : ∀ s t, R s t → (send s).1 = (send' t).1 ∧ R (send s).2 (send' t).2)
    {s : σ} {t : τ} (hst : R s t) :
    (p.attempt send s).1 = (p.attempt send' t).1 ∧ R (p.attempt send s).2 (p.attempt send' t).2 :=
  attempt_go_related h 0 (p.maxAttempts - 1) hst

end

theorem queue_settle {a b : Pending} {result : Except Failure Hash} {r : Reading}
    (hb : b ∈ (p.settle a result r).queue) : b.key = a.key ∨ b ∈ r.queue := by
  unfold settle at hb
  split at hb
  · exact Or.inr hb
  · split at hb
    · rcases Pending.mem_enqueue.1 hb with rfl | hb
      · exact Or.inl rfl
      · exact Or.inr hb
    · rw [Reading.queue_fail] at hb
      exact Or.inr hb

theorem drain_of_over {r : Reading} {fetched : Fetched} (h : r.turn = .over fetched) (s : σ) :
    p.drain client r s = (fetched, r, s) := by
  unfold drain
  split
  · next hover =>
    rw [h] at hover
    cases hover
    rfl
  · next hsend =>
    rw [h] at hsend
    cases hsend

theorem drain_of_send {r now : Reading} {a : Pending} (h : r.turn = .send a now) (s : σ) :
    p.drain client r s = p.drain client (p.settle a (client (.hgetall a.key) s).1 now)
      (client (.hgetall a.key) s).2 := by
  rw [drain]
  split
  · next hover =>
    rw [h] at hover
    cases hover
  · next hsend =>
    rw [h] at hsend
    cases hsend
    rfl

theorem drain_related {places : List String}
    (h : ∀ key ∈ places, ∀ s t, R s t → (client (.hgetall key) s).1 = (client' (.hgetall key) t).1
      ∧ R (client (.hgetall key) s).2 (client' (.hgetall key) t).2)
    {r : Reading} {s : σ} {t : τ} (hkeys : ∀ a ∈ r.queue, a.key ∈ places) (hst : R s t) :
    (p.drain client r s).1 = (p.drain client' r t).1
      ∧ R (p.drain client r s).2.2 (p.drain client' r t).2.2 := by
  -- both readings take the same turns, as these depend on nothing but what was read before
  induction r, s using drain.induct p client generalizing t with
  | case1 r s fetched hturn =>
    rw [drain_of_over hturn, drain_of_over hturn]
    exact ⟨rfl, hst⟩
  | case2 r s a now hturn hqueue result after hafter ih =>
    rw [hqueue] at hkeys
    have hkey := hkeys a List.mem_cons_self
    obtain ⟨hresult, hrest⟩ := h a.key hkey s t hst
    rw [hafter] at hresult hrest
    rw [drain_of_send hturn, drain_of_send hturn, hafter, ← hresult]
    apply ih _ hrest
    intro b hb
    rcases queue_settle hb with heq | hb
    · rwa [heq]
    · exact hkeys b (List.mem_cons_of_mem _ hb)

theorem readAll_related {places : List String}
    (h : ∀ key ∈ places, ∀ s t, R s t → (client (.hgetall key) s).1 = (client' (.hgetall key) t).1
      ∧ R (client (.hgetall key) s).2 (client' (.hgetall key) t).2)
    {s : σ} {t : τ} (hst : R s t) :
    (p.readAll client places s).1 = (p.readAll client' places t).1
      ∧ R (p.readAll client places s).2.2 (p.readAll client' places t).2.2 := by
  apply drain_related h _ hst
  intro a ha
  obtain ⟨place, hplace, rfl⟩ := List.mem_mapIdx.1 ha
  exact List.getElem_mem hplace

theorem readAll_preserves {places : List String}
    (h : ∀ key ∈ places, ∀ s, P s → P (client (.hgetall key) s).2) {s : σ} (hs : P s) :
    P (p.readAll client places s).2.2 := by
  -- a reading is related to itself as long as it keeps the property
  have hself : ∀ key ∈ places, ∀ s t, s = t ∧ P s →
      (client (.hgetall key) s).1 = (client (.hgetall key) t).1
        ∧ (client (.hgetall key) s).2 = (client (.hgetall key) t).2
        ∧ P (client (.hgetall key) s).2 := by
    rintro key hkey s _ ⟨rfl, hs⟩
    exact ⟨rfl, rfl, h key hkey s hs⟩
  exact (readAll_related hself ⟨rfl, hs⟩).2.2

end Policy

end Rollup.Retry
