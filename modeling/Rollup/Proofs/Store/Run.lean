import Mathlib.Algebra.Ring.Int.Defs
import Mathlib.Algebra.Ring.Nat
import Rollup.Request
import Rollup.Retry.Observed
import Rollup.Store.Bench

/-!
This module contains runs of programs that send each command once. What is observed on the side does
not matter for the result, so all of them are runs on the client alone.
-/

namespace Rollup.Store

open Rollup.Retry

variable {σ τ α β : Type}

def Client.bare (client : Client σ) : Runtime σ where
  send := client
  readAll := client.readInTurn
  report _ s := s

namespace Program

theorem run_bind (rt : Runtime σ) (p : Program α) (next : α → Program β) (s : σ) :
    (p.bind next).run rt s
      = match p.run rt s with
        | (.ok a, s) => (next a).run rt s
        | (.error e, s) => (.error e, s) := by
  induction p generalizing s with
  | done result => cases result <;> rfl
  | call c rest ih => exact ih (rt.send c s).1 (rt.send c s).2
  | readAll keys rest ih => exact ih (rt.readAll keys s).1 (rt.readAll keys s).2
  | report event rest ih => exact ih (rt.report event s)

theorem run_map (rt : Runtime σ) (p : Program α) (f : α → β) (s : σ) :
    (f <$> p).run rt s = ((p.run rt s).1.map f, (p.run rt s).2) := by
  change (p.bind fun a => done (.ok (f a))).run rt s = _
  rw [run_bind]
  cases h : p.run rt s with
  | mk result after => cases result <;> rfl

theorem run_ite (rt : Runtime σ) (c : Prop) [Decidable c] (p q : Program α) (s : σ) :
    (if c then p else q).run rt s = if c then p.run rt s else q.run rt s := by
  split <;> rfl

theorem run_lift (rt : Runtime σ) (result : Except CounterError α) (s : σ) :
    (liftExcept result : Program α).run rt s = (result, s) := by
  cases result <;> rfl

theorem run_bind_eq_ok {rt : Runtime σ} {p : Program α} {next : α → Program β} {s : σ} {b : β}
    (h : ((p.bind next).run rt s).1 = .ok b) :
    ∃ a, (p.run rt s).1 = .ok a ∧ ((next a).run rt (p.run rt s).2).1 = .ok b := by
  rw [run_bind] at h
  generalize p.run rt s = out at h ⊢
  obtain ⟨result, s'⟩ := out
  cases result with
  | ok a => exact ⟨a, rfl, h⟩
  | error e => cases h

theorem run_call (client : Client σ) (c : Command) (rest : Except Failure c.Reply → Program α)
    (s : σ) : (call c rest).run client.bare s = (rest (client c s).1).run client.bare (client c s).2 :=
  rfl

theorem run_send (rt : Runtime σ) (c : Command) (s : σ) :
    (send c).run rt s = ((rt.send c s).1.mapError .store, (rt.send c s).2) := by
  unfold send
  rw [run]
  generalize rt.send c s = out
  obtain ⟨result, s'⟩ := out
  cases result <;> rfl

theorem run_send_bind (rt : Runtime σ) (c : Command) (next : c.Reply → Program α) (s : σ) :
    ((send c).bind next).run rt s
      = match rt.send c s with
        | (.ok reply, s) => (next reply).run rt s
        | (.error failure, s) => (.error (.store failure), s) := by
  rw [run_bind, run_send]
  generalize rt.send c s = out
  obtain ⟨result, s'⟩ := out
  cases result with
  | ok reply => rfl
  | error failure => rfl

theorem run_send_bind_eq_ok {rt : Runtime σ} {c : Command} {next : c.Reply → Program α} {s : σ}
    {a : α} (h : (((send c).bind next).run rt s).1 = .ok a) :
    ∃ reply, (rt.send c s).1 = .ok reply
      ∧ ((send c).bind next).run rt s = (next reply).run rt (rt.send c s).2 := by
  rw [run_send_bind] at h ⊢
  generalize rt.send c s = out at h ⊢
  obtain ⟨result, s'⟩ := out
  cases result with
  | ok reply => exact ⟨reply, rfl, rfl⟩
  | error failure => cases h

/--
What is observed on the side has no influence on a run.
-/
theorem run_plain (client : Client σ) (p : Program α) (o : Observed σ) :
    (p.run (Observed.plain client) o).1 = (p.run client.bare o.state).1
      ∧ (p.run (Observed.plain client) o).2.state = (p.run client.bare o.state).2 := by
  induction p generalizing o with
  | done result => exact ⟨rfl, rfl⟩
  | call c rest ih => exact ih _ _
  | readAll keys rest ih => exact ih _ _
  | report event rest ih => exact ih _

end Program

theorem Client.readInTurn_preserves {client : Client σ} {P : σ → Prop}
    (h : ∀ key s, P s → P (client (.hgetall key) s).2) (keys : List String) {s : σ} (hs : P s) :
    P (client.readInTurn keys s).2 := by
  induction keys generalizing s with
  | nil => exact hs
  | cons key keys ih =>
    have hafter := h key s hs
    unfold Client.readInTurn
    generalize client (.hgetall key) s = out at hafter ⊢
    obtain ⟨reply, s'⟩ := out
    cases reply with
    | error failure => exact hafter
    | ok hash =>
      have hrest := ih hafter
      simp only
      generalize client.readInTurn keys s' = out at hrest ⊢
      obtain ⟨fetched, s''⟩ := out
      cases fetched with
      | all hashes => exact hrest
      | broken failure arrived => exact hrest

section

variable {client : Client σ} {client' : Client τ} {R : σ → τ → Prop}

theorem Client.readInTurn_related {keys : List String}
    (h : ∀ key ∈ keys, ∀ s t, R s t → (client (.hgetall key) s).1 = (client' (.hgetall key) t).1
      ∧ R (client (.hgetall key) s).2 (client' (.hgetall key) t).2)
    {s : σ} {t : τ} (hst : R s t) :
    (client.readInTurn keys s).1 = (client'.readInTurn keys t).1
      ∧ R (client.readInTurn keys s).2 (client'.readInTurn keys t).2 := by
  induction keys generalizing s t with
  | nil => exact ⟨rfl, hst⟩
  | cons key keys ih =>
    obtain ⟨hreply, hafter⟩ := h key List.mem_cons_self s t hst
    unfold Client.readInTurn
    generalize client (.hgetall key) s = out at hreply hafter ⊢
    generalize client' (.hgetall key) t = out' at hreply hafter ⊢
    obtain ⟨reply, s'⟩ := out
    obtain ⟨reply', t'⟩ := out'
    cases hreply
    cases reply with
    | error failure => exact ⟨rfl, hafter⟩
    | ok hash =>
      obtain ⟨hfetched, hrest⟩ := ih (fun k hk => h k (List.mem_cons_of_mem _ hk)) hafter
      simp only
      generalize client.readInTurn keys s' = out at hfetched hrest ⊢
      generalize client'.readInTurn keys t' = out' at hfetched hrest ⊢
      obtain ⟨fetched, s''⟩ := out
      obtain ⟨fetched', t''⟩ := out'
      cases hfetched
      cases fetched with
      | all hashes => exact ⟨rfl, hrest⟩
      | broken failure arrived => exact ⟨rfl, hrest⟩

/--
Clients that give the same replies in related states run programs to the same results.
-/
theorem Program.run_related (client : Client σ) (client' : Client τ)
    (h : ∀ c s t, R s t → (client c s).1 = (client' c t).1 ∧ R (client c s).2 (client' c t).2)
    (p : Program α) {s : σ} {t : τ} (hst : R s t) :
    (p.run client.bare s).1 = (p.run client'.bare t).1
      ∧ R (p.run client.bare s).2 (p.run client'.bare t).2 := by
  induction p generalizing s t with
  | done result => exact ⟨rfl, hst⟩
  | call c rest ih =>
    obtain ⟨hreply, hafter⟩ := h c s t hst
    have := ih (client c s).1 hafter
    unfold Program.run
    simp only [Client.bare] at this ⊢
    rwa [hreply] at this ⊢
  | readAll keys rest ih =>
    obtain ⟨hfetched, hafter⟩ := Client.readInTurn_related (fun key _ => h (.hgetall key)) hst
    have := ih (client.readInTurn keys s).1 hafter
    unfold Program.run
    simp only [Client.bare] at this ⊢
    rwa [hfetched] at this ⊢
  | report event rest ih => exact ih hst

end

namespace Bench

def answer (keys : KeySpace) (bench : Bench) (r : Request) : Except CounterError Answer × Bench :=
  let (result, o) := (Counters.answer keys r).run (Observed.runtime none send) (.start bench)
  (result, o.state)

theorem answer_eq (keys : KeySpace) (bench : Bench) (r : Request) :
    bench.answer keys r = (Counters.answer keys r).run send.bare bench := by
  have ⟨hresult, hafter⟩ := Program.run_plain send (Counters.answer keys r) (.start bench)
  exact Prod.ext hresult hafter

theorem run_of_failures_eq_nil (p : Program α) {bench : Bench} (h : bench.failures = []) :
    (p.run send.bare bench).1 = (p.run Data.send.bare bench.data).1
      ∧ (p.run send.bare bench).2.data = (p.run Data.send.bare bench.data).2
      ∧ (p.run send.bare bench).2.failures = [] := by
  apply Program.run_related send Data.send (R := fun (b : Bench) (d : Data) => b.data = d ∧ b.failures = [])
  · rintro c b d ⟨rfl, hb⟩
    simp [send, hb, takeFirst]
  · exact ⟨rfl, h⟩

end Bench

end Rollup.Store
