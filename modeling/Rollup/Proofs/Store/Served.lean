import Rollup.Proofs.Retry
import Rollup.Proofs.Store.Contract
import Rollup.Proofs.Store.Reset

/-!
This module contains requests that are answered by a store with retries or without. The main
statement is `Obeys.run_related`: what is known of single attempts of the commands that a contract
allows is known of runs of all programs that obey the contract.
-/

namespace Rollup

open Rollup.Retry Rollup.Store

variable {σ τ α : Type} {client : Client σ} {client' : Client τ} {P : σ → Prop} {R : σ → τ → Prop}
variable (policy? : Option Policy) {o : Observed σ} {o' : Observed τ}

namespace Retry.Observed

/--
With retries or without, what comes of a command is what comes of its last attempt.
-/
theorem send_last (c : Command)
    (hfails : ∀ s failure, P s → (client c s).1 = .error failure → P (client c s).2)
    (ho : P o.state) :
    ∃ last, P last ∧ ((runtime policy? client).send c o).1 = (client c last).1
      ∧ ((runtime policy? client).send c o).2.state = (client c last).2 := by
  cases policy? with
  | none => exact ⟨o.state, ho, rfl, rfl⟩
  | some p => exact p.attempt_last hfails ho

theorem send_related (c : Command)
    (h : ∀ s t, R s t → (client c s).1 = (client' c t).1 ∧ R (client c s).2 (client' c t).2)
    (ho : R o.state o'.state) :
    ((runtime policy? client).send c o).1 = ((runtime policy? client').send c o').1
      ∧ R ((runtime policy? client).send c o).2.state
        ((runtime policy? client').send c o').2.state := by
  cases policy? with
  | none => exact h o.state o'.state ho
  | some p =>
    obtain ⟨hattempts, hafter⟩ := p.attempt_related h ho
    exact ⟨congrArg Attempts.result hattempts, hafter⟩

theorem readAll_related {places : List String}
    (h : ∀ key ∈ places, ∀ s t, R s t → (client (.hgetall key) s).1 = (client' (.hgetall key) t).1
      ∧ R (client (.hgetall key) s).2 (client' (.hgetall key) t).2)
    (ho : R o.state o'.state) :
    ((runtime policy? client).readAll places o).1 = ((runtime policy? client').readAll places o').1
      ∧ R ((runtime policy? client).readAll places o).2.state
        ((runtime policy? client').readAll places o').2.state := by
  cases policy? with
  | none => exact Client.readInTurn_related h ho
  | some p => exact p.readAll_related h ho

@[simp]
theorem state_report (event : Event) :
    ((runtime policy? client).report event o).state = o.state := by
  cases policy? <;> rfl

/--
A client that works on some data still does so when it sends failing commands again.
-/
theorem worksOn {data : σ → Data} (hclient : client.WorksOn data) :
    Client.WorksOn (runtime policy? client).send fun o => data o.state := by
  intro c o
  -- an attempt that fails changes nothing
  have hfails : ∀ s failure, data s = data o.state → (client c s).1 = .error failure →
      data (client c s).2 = data o.state := by
    intro s failure hs hfailure
    rcases hclient c s with ⟨-, hsame⟩ | ⟨hreply, hsame⟩
    · exact hsame.trans hs
    · rw [hreply] at hfailure
      rw [hsame, Data.send_of_error hfailure, hs]
  obtain ⟨last, hlast, hresult, hafter⟩ := send_last policy? c hfails rfl
  have hget := hclient c last
  rw [hlast] at hget
  change Data.MayGet c (data o.state) _ (data _)
  rwa [hresult, hafter]

end Retry.Observed

namespace Store

/--
Everything that a contract allows, be it read at the same time as others or not.
-/
def Contract.Allows (contract : Contract) (c : Command) : Prop :=
  contract.sends c ∨ ∃ key, c = .hgetall key ∧ contract.reads key

namespace Program.Obeys

open Observed

variable {contract : Contract} {p : Program α}

/--
Two runs of a program have the same result, if single commands that its contract allows get the same
reply and leave the two states related.
-/
theorem run_related (hp : p.Obeys contract)
    (h : ∀ c, contract.Allows c → ∀ s t, R s t → (client c s).1 = (client' c t).1
      ∧ contract.expects c (client c s).1 ∧ R (client c s).2 (client' c t).2)
    (ho : R o.state o'.state) :
    (p.run (runtime policy? client) o).1 = (p.run (runtime policy? client') o').1
      ∧ R (p.run (runtime policy? client) o).2.state
        (p.run (runtime policy? client') o').2.state := by
  have hsame : ∀ c, contract.Allows c → ∀ s t, R s t →
      (client c s).1 = (client' c t).1 ∧ R (client c s).2 (client' c t).2 := by
    intro c hc s t hst
    exact ⟨(h c hc s t hst).1, (h c hc s t hst).2.2⟩
  induction p generalizing o o' with
  | done result => exact ⟨rfl, ho⟩
  | call c rest ih =>
    have hc : contract.Allows c := Or.inl hp.1
    obtain ⟨hreply, hafter⟩ := send_related policy? c (hsame c hc) ho
    -- the reply is the one to the last attempt, so it is as expected
    have hexpected : contract.expects c ((runtime policy? client).send c o).1 := by
      have hfails : ∀ s failure, (∃ t, R s t) → (client c s).1 = .error failure →
          ∃ t, R (client c s).2 t := by
        rintro s _ ⟨t, hst⟩ -
        exact ⟨_, (hsame c hc s t hst).2⟩
      obtain ⟨last, ⟨t, hlast⟩, hresult, -⟩ := send_last policy? c hfails ⟨_, ho⟩
      rw [hresult]
      exact (h c hc last t hlast).2.1
    have hrest := ih _ (hp.2 _ hexpected) hafter
    unfold run
    simp only
    rwa [hreply] at hrest ⊢
  | readAll places rest ih =>
    obtain ⟨hfetched, hafter⟩ := readAll_related policy?
      (fun key hkey => hsame _ (Or.inr ⟨key, rfl, hp.1 key hkey⟩)) ho
    have hrest := ih ((runtime policy? client).readAll places o).1 (hp.2 _) hafter
    unfold run
    simp only
    rwa [hfetched] at hrest ⊢
  | report event rest ih =>
    apply ih hp
    rwa [state_report, state_report]

/--
What single commands that the contract of a program allows keep true stays true along its run.
-/
theorem run_preserves (hp : p.Obeys contract)
    (h : ∀ c, contract.Allows c → ∀ s, P s →
      contract.expects c (client c s).1 ∧ P (client c s).2)
    (ho : P o.state) : P (p.run (runtime policy? client) o).2.state := by
  have hself : ∀ c, contract.Allows c → ∀ s t, s = t ∧ P s → (client c s).1 = (client c t).1
      ∧ contract.expects c (client c s).1 ∧ (client c s).2 = (client c t).2 ∧ P (client c s).2 := by
    rintro c hc s _ ⟨rfl, hs⟩
    exact ⟨rfl, (h c hc s hs).1, rfl, (h c hc s hs).2⟩
  exact (hp.run_related policy? hself ⟨rfl, ho⟩).2.2

end Program.Obeys

namespace Client

/--
The answer to a request, with failing commands sent again as some policy tells, if there is one.
-/
def serve (client : Client σ) (keys : KeySpace) (policy? : Option Policy) (s : σ) (r : Request) :
    Except CounterError Answer × σ :=
  let (result, o) := (Counters.answer keys r).run (Observed.runtime policy? client) (.start s)
  (result, o.state)

variable {contract : Contract} {keys : KeySpace} {r : Request}

theorem serve_related (hr : contract.Covers keys r)
    (h : ∀ c, contract.Allows c → ∀ s t, R s t → (client c s).1 = (client' c t).1
      ∧ contract.expects c (client c s).1 ∧ R (client c s).2 (client' c t).2)
    {s : σ} {t : τ} (hst : R s t) :
    (client.serve keys policy? s r).1 = (client'.serve keys policy? t r).1
      ∧ R (client.serve keys policy? s r).2 (client'.serve keys policy? t r).2 :=
  (Counters.obeys_answer hr).run_related policy? h hst

theorem serve_preserves (hr : contract.Covers keys r)
    (h : ∀ c, contract.Allows c → ∀ s, P s →
      contract.expects c (client c s).1 ∧ P (client c s).2)
    {s : σ} (hs : P s) : P (client.serve keys policy? s r).2 :=
  (Counters.obeys_answer hr).run_preserves policy? h hs

end Client

namespace Bench

def serve (keys : KeySpace) (policy? : Option Policy) (bench : Bench) (r : Request) :
    Except CounterError Answer × Bench :=
  send.serve keys policy? bench r

def actServed (keys : KeySpace) (policy? : Option Policy) (bench : Bench) : Deed → Bench
  | .request r => (bench.serve keys policy? r).2
  | .failNext verb failure times => bench.failNext verb failure times

/--
What some deeds make of a store.
-/
def served (keys : KeySpace) (policy? : Option Policy) (bench : Bench) (deeds : List Deed) : Bench :=
  deeds.foldl (actServed keys policy?) bench

end Bench

end Store

end Rollup
