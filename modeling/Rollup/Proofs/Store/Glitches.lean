import Rollup.Proofs.Store.Pending
import Rollup.Proofs.Store.Reading
import Rollup.Proofs.Store.Served

/-!
This module contains requests that are answered with retries while failures are queued that may
pass. The main statement is `retries_hide_failures`: as long as a policy has more attempts than there
are failures for any kind of command, nobody can tell that there were any, and all answers are those
of the data alone.
-/

namespace Rollup

open Rollup.Retry Rollup.Store Rollup.Time

namespace Store

/--
The failures that come of the data themselves do not pass.
-/
theorem Data.not_isTransient_of_send {c : Command} {d : Data} {failure : Failure}
    (h : (send c d).1 = .error failure) : ¬failure.IsTransient := by
  have hknown : failure = overflow ∨ failure = .notFound := by
    cases c with
    | hincrby key field amount =>
      cases hadd : (d.count key field).add? amount with
      | some value => simp [send, hincrby, hadd] at h
      | none =>
        simp only [send, hincrby, hadd] at h
        exact Or.inl (Except.error.inj h).symm
    | incrBy key amount =>
      cases hadd : (d.strings.getD key 0).add? amount with
      | some value => simp [send, incrBy, hadd] at h
      | none =>
        simp only [send, incrBy, hadd] at h
        exact Or.inl (Except.error.inj h).symm
    | get key =>
      cases hvalue : d.strings[key]? with
      | some value => simp [send, hvalue] at h
      | none =>
        simp only [send, hvalue] at h
        exact Or.inr (Except.error.inj h).symm
    | hgetall key => cases h
    | smembers key => cases h
    | sadd key member => cases h
    | srem key members => cases h
    | del key => cases h
    | batchDel keys => cases h
  rcases hknown with rfl | rfl
  · decide
  · decide

namespace Bench

variable {n : Nat} {p : Policy} {bench : Bench} {c : Command}

/--
Few failures are queued for each kind of command, and all of them are such as may pass.
-/
structure Glitches (n : Nat) (bench : Bench) : Prop where
  transient : ∀ verb, ∀ failure ∈ bench.pending verb, failure.IsTransient
  few : ∀ verb, (bench.pending verb).length ≤ n

theorem glitches_zero (h : ∀ verb, bench.pending verb = []) : bench.Glitches 0 where
  transient := by
    intro verb
    simp [h verb]
  few := by
    intro verb
    simp [h verb]

theorem Glitches.send (h : bench.Glitches n) (c : Command) : (Bench.send c bench).2.Glitches n where
  transient := by
    intro verb failure hfailure
    rw [pending_send] at hfailure
    split at hfailure
    · exact h.transient verb failure (List.mem_of_mem_tail hfailure)
    · exact h.transient verb failure hfailure
  few := by
    intro verb
    have hfew := h.few verb
    rw [pending_send]
    split
    · rw [List.length_tail]
      omega
    · exact hfew

theorem attempt_go_send (htransient : ∀ failure ∈ bench.pending c.verb, failure.IsTransient)
    (failed : Nat) {left : Nat} (hleft : (bench.pending c.verb).length ≤ left) :
    (Policy.attempt.go p (Bench.send c) failed left bench).1.result = (Data.send c bench.data).1
      ∧ (Policy.attempt.go p (Bench.send c) failed left bench).2.data
        = (Data.send c bench.data).2 := by
  induction left generalizing failed bench with
  | zero =>
    exact send_of_pending_eq_nil (List.eq_nil_of_length_eq_zero (Nat.le_zero.1 hleft))
  | succ left ih =>
    unfold Policy.attempt.go
    cases hpending : bench.pending c.verb with
    | nil =>
      obtain ⟨hreply, hdata⟩ := send_of_pending_eq_nil hpending
      generalize Bench.send c bench = out at hreply hdata ⊢
      obtain ⟨result, after⟩ := out
      cases result with
      | ok reply => exact ⟨hreply, hdata⟩
      | error failure =>
        simp only
        rw [if_neg (Data.not_isTransient_of_send hreply.symm)]
        exact ⟨hreply, hdata⟩
    | cons failure rest =>
      obtain ⟨hreply, hdata⟩ := send_of_pending_eq_cons hpending
      have hrest : (Bench.send c bench).2.pending c.verb = rest := by
        rw [pending_send, if_pos rfl, hpending, List.tail_cons]
      rw [hpending] at htransient hleft
      generalize Bench.send c bench = out at hreply hdata hrest ⊢
      obtain ⟨result, after⟩ := out
      cases hreply
      simp only
      rw [if_pos (htransient failure List.mem_cons_self), ← hdata]
      subst hrest
      exact ih (fun f hf => htransient f (List.mem_cons_of_mem _ hf)) (failed + 1)
        (Nat.le_of_succ_le_succ hleft)

theorem Glitches.attempt (h : bench.Glitches n) (hn : n ≤ p.maxAttempts - 1) (c : Command) :
    (p.attempt (Bench.send c) bench).1.result = (Data.send c bench.data).1
      ∧ (p.attempt (Bench.send c) bench).2.data = (Data.send c bench.data).2
      ∧ (p.attempt (Bench.send c) bench).2.Glitches n := by
  obtain ⟨hresult, hdata⟩ :=
    attempt_go_send (p := p) (h.transient c.verb) 0 (Nat.le_trans (h.few c.verb) hn)
  refine ⟨hresult, hdata, ?_⟩
  have hfails : ∀ b failure, b.Glitches n → (Bench.send c b).1 = .error failure →
      (Bench.send c b).2.Glitches n := fun b _ hb _ => hb.send c
  obtain ⟨last, hlast, -, hafter⟩ := p.attempt_last hfails h
  rw [hafter]
  exact hlast.send c

end Bench

end Store

namespace Retry.Reading

variable {p : Policy} {places : List String} {hash : String → Hash} {n : Nat} {r now : Reading}
variable {a : Pending}

/--
A reading that will have all hashes: none is given up, each has arrived or is still to be read, and
more attempts are left for it than the number of failures that are queued.
-/
structure WillHave (places : List String) (hash : String → Hash) (n : Nat) (r : Reading) : Prop where
  broken : r.broken = none
  length : r.arrived.length = places.length
  queued : ∀ a ∈ r.queue, places[a.place]? = some a.key ∧ n ≤ a.left
  arrived : ∀ i key, places[i]? = some key →
    r.arrived[i]? = some (some (hash key)) ∨ ∃ a ∈ r.queue, a.place = i

theorem willHave_start (h : n ≤ p.maxAttempts - 1) (places : List String) (hash : String → Hash) :
    (start p.maxAttempts places).WillHave places hash n where
  broken := rfl
  length := List.length_map _
  queued := by
    intro a ha
    obtain ⟨i, hi, rfl⟩ := List.mem_mapIdx.1 ha
    exact ⟨List.getElem?_eq_getElem hi, h⟩
  arrived := by
    intro i key hkey
    obtain ⟨hi, rfl⟩ := List.getElem?_eq_some_iff.1 hkey
    exact Or.inr ⟨_, List.mem_mapIdx.2 ⟨i, hi, rfl⟩, rfl⟩

namespace WillHave

theorem of_over (h : r.WillHave places hash n) {fetched : Fetched} (hturn : r.turn = .over fetched) :
    fetched = .all (places.map hash) := by
  have hqueue : r.queue = [] ∧ fetched = .all (r.arrived.map fun hash? => hash?.getD ∅) := by
    unfold turn at hturn
    rw [h.broken] at hturn
    cases hqueue : r.queue with
    | nil =>
      rw [hqueue] at hturn
      cases hturn
      exact ⟨rfl, rfl⟩
    | cons a queue =>
      rw [hqueue] at hturn
      cases hturn
  obtain ⟨hqueue, rfl⟩ := hqueue
  congr 1
  apply List.ext_getElem
  · rw [List.length_map, List.length_map, h.length]
  · intro i _ hi
    rw [List.length_map] at hi
    -- nothing is left to be read, so the hash has arrived
    rcases h.arrived i _ (List.getElem?_eq_getElem hi) with harrived | ⟨a, ha, -⟩
    · obtain ⟨hlt, heq⟩ := List.getElem?_eq_some_iff.1 harrived
      rw [List.getElem_map, List.getElem_map, heq, Option.getD_some]
    · rw [hqueue] at ha
      cases ha

theorem of_send (h : r.WillHave places hash n) (hturn : r.turn = .send a now) :
    now.broken = none ∧ now.arrived = r.arrived ∧ r.queue = a :: now.queue := by
  unfold turn at hturn
  rw [h.broken] at hturn
  cases hqueue : r.queue with
  | nil =>
    rw [hqueue] at hturn
    cases hturn
  | cons a queue =>
    rw [hqueue] at hturn
    cases hturn
    exact ⟨rfl, rfl, rfl⟩

theorem settle_ok (h : r.WillHave places hash n) (hturn : r.turn = .send a now) :
    (p.settle a (.ok (hash a.key)) now).WillHave places hash n := by
  obtain ⟨hbroken, harrived, hqueue⟩ := h.of_send hturn
  have ha := h.queued a (hqueue ▸ List.mem_cons_self)
  obtain ⟨hplace, hkey⟩ := List.getElem?_eq_some_iff.1 ha.1
  constructor
  case broken => exact hbroken
  case length => rw [← h.length, ← harrived]; exact List.length_set
  case queued =>
    intro b hb
    exact h.queued b (hqueue ▸ List.mem_cons_of_mem _ hb)
  case arrived =>
    intro i key hi
    change (now.arrived.set a.place (some (hash a.key)))[i]? = _ ∨ _
    by_cases heq : i = a.place
    · subst heq
      left
      rw [List.getElem?_set_self (by rw [harrived, h.length]; exact hplace)]
      rw [ha.1] at hi
      rw [Option.some.inj hi]
    · rw [List.getElem?_set_ne (Ne.symm heq), harrived]
      rcases h.arrived i key hi with harr | ⟨b, hb, hbi⟩
      · exact Or.inl harr
      · rw [hqueue] at hb
        rcases List.mem_cons.1 hb with rfl | hb
        · exact absurd hbi.symm heq
        · exact Or.inr ⟨b, hb, hbi⟩

theorem settle_error (h : r.WillHave places hash (n + 1)) (hturn : r.turn = .send a now)
    {failure : Failure} (hfailure : failure.IsTransient) :
    (p.settle a (.error failure) now).WillHave places hash n := by
  obtain ⟨hbroken, harrived, hqueue⟩ := h.of_send hturn
  have ha := h.queued a (hqueue ▸ List.mem_cons_self)
  have hsettle : p.settle a (.error failure) now = _ := if_pos ⟨by omega, hfailure⟩
  rw [hsettle]
  constructor
  case broken => exact hbroken
  case length => rw [← h.length, ← harrived]
  case queued =>
    intro b hb
    rcases Pending.mem_enqueue.1 hb with rfl | hb
    · exact ⟨ha.1, by simp only; omega⟩
    · have hb := h.queued b (hqueue ▸ List.mem_cons_of_mem _ hb)
      exact ⟨hb.1, by omega⟩
  case arrived =>
    intro i key hi
    rcases h.arrived i key hi with harr | ⟨b, hb, hbi⟩
    · left
      rw [← harr, ← harrived]
    · right
      rw [hqueue] at hb
      -- the read that failed is queued again
      rcases List.mem_cons.1 hb with rfl | hb
      · exact ⟨_, Pending.mem_enqueue.2 (Or.inl rfl), hbi⟩
      · exact ⟨b, Pending.mem_enqueue.2 (Or.inr hb), hbi⟩

end WillHave

end Retry.Reading

namespace Store

namespace Bench

variable {n : Nat} {p : Policy} {bench : Bench} {α : Type}

theorem data_send_hgetall (key : String) (bench : Bench) :
    (Bench.send (.hgetall key) bench).2.data = bench.data := by
  cases hpending : bench.pending (Command.hgetall key).verb with
  | nil => exact (send_of_pending_eq_nil hpending).2
  | cons failure rest => exact (send_of_pending_eq_cons hpending).2

/--
Reads that are made at the same time meet the failures queued for all of them together, so each read
has attempts enough.
-/
theorem drain_send {r : Reading} {places : List String}
    (htransient : ∀ failure ∈ bench.pending .hgetall, failure.IsTransient)
    (h : r.WillHave places bench.data.hash (bench.pending .hgetall).length) :
    (p.drain Bench.send r bench).1 = .all (places.map bench.data.hash) := by
  induction r, bench using Policy.drain.induct p Bench.send with
  | case1 r bench fetched hturn =>
    rw [Policy.drain_of_over hturn]
    exact h.of_over hturn
  | case2 r bench a now hturn hqueue result after hafter ih =>
    have hdata := data_send_hgetall a.key bench
    have hrest : (Bench.send (.hgetall a.key) bench).2.pending .hgetall
        = (bench.pending .hgetall).tail :=
      (pending_send (.hgetall a.key) bench .hgetall).trans (if_pos rfl)
    rw [Policy.drain_of_send hturn, hafter]
    rw [hafter] at hdata hrest
    simp only at hdata hrest ⊢
    rw [hdata, hrest] at ih
    cases hpending : bench.pending .hgetall with
    | nil =>
      obtain ⟨hreply, -⟩ := send_of_pending_eq_nil (c := .hgetall a.key) hpending
      rw [hafter] at hreply
      cases hreply
      rw [hpending] at htransient h ih
      exact ih htransient (h.settle_ok hturn)
    | cons failure rest =>
      obtain ⟨hreply, -⟩ := send_of_pending_eq_cons (c := .hgetall a.key) hpending
      rw [hafter] at hreply
      cases hreply
      rw [hpending] at htransient h ih
      exact ih (fun f hf => htransient f (List.mem_cons_of_mem _ hf))
        (h.settle_error hturn (htransient failure List.mem_cons_self))

theorem Glitches.readAll (h : bench.Glitches n) (hn : n ≤ p.maxAttempts - 1)
    (places : List String) :
    (p.readAll Bench.send places bench).1 = .all (places.map bench.data.hash)
      ∧ (p.readAll Bench.send places bench).2.2.data = bench.data
      ∧ (p.readAll Bench.send places bench).2.2.Glitches n := by
  refine ⟨?_, ?_⟩
  · exact drain_send (h.transient .hgetall)
      (Reading.willHave_start (Nat.le_trans (h.few .hgetall) hn) places _)
  · apply Policy.readAll_preserves (P := fun b : Bench => b.data = bench.data ∧ b.Glitches n)
    · rintro key - b ⟨hdata, hb⟩
      exact ⟨(data_send_hgetall key b).trans hdata, hb.send _⟩
    · exact ⟨rfl, h⟩

/--
A program that runs with retries ends as if it ran on the data alone, if it has more attempts for
each command than failures are queued.
-/
theorem Glitches.run (hn : n ≤ p.maxAttempts - 1) (prog : Program α) {o : Observed Bench}
    (h : o.state.Glitches n) :
    (prog.run (Observed.retrying p Bench.send) o).1 = (prog.run Data.send.bare o.state.data).1
      ∧ (prog.run (Observed.retrying p Bench.send) o).2.state.data
        = (prog.run Data.send.bare o.state.data).2
      ∧ (prog.run (Observed.retrying p Bench.send) o).2.state.Glitches n := by
  induction prog generalizing o with
  | done result => exact ⟨rfl, rfl, h⟩
  | call c rest ih =>
    obtain ⟨hreply, hdata, hafter⟩ := h.attempt hn c
    have hrest := ih ((Observed.retrying p Bench.send).send c o).1
      (o := ((Observed.retrying p Bench.send).send c o).2) hafter
    have hstate : ((Observed.retrying p Bench.send).send c o).2.state.data = _ := hdata
    have hresult : ((Observed.retrying p Bench.send).send c o).1 = _ := hreply
    rw [hstate, hresult] at hrest
    unfold Program.run
    simp only
    rw [hresult]
    exact hrest
  | readAll places rest ih =>
    obtain ⟨hfetched, hdata, hafter⟩ := h.readAll hn places
    have hrest := ih ((Observed.retrying p Bench.send).readAll places o).1
      (o := ((Observed.retrying p Bench.send).readAll places o).2) hafter
    have hstate : ((Observed.retrying p Bench.send).readAll places o).2.state.data = _ := hdata
    have hresult : ((Observed.retrying p Bench.send).readAll places o).1 = _ := hfetched
    rw [hstate, hresult] at hrest
    unfold Program.run
    simp only [Client.bare, Data.readInTurn_send]
    rw [hresult]
    exact hrest
  | report event rest ih => exact ih (o := (Observed.retrying p Bench.send).report event o) h

theorem Glitches.serve (h : bench.Glitches n) (hn : n ≤ p.maxAttempts - 1) (keys : KeySpace)
    (r : Request) :
    (bench.serve keys (some p) r).1 = ((Counters.answer keys r).run Data.send.bare bench.data).1
      ∧ (bench.serve keys (some p) r).2.data
        = ((Counters.answer keys r).run Data.send.bare bench.data).2
      ∧ (bench.serve keys (some p) r).2.Glitches n :=
  Glitches.run hn (Counters.answer keys r) (o := .start bench) h

def Deed.isRequest : Deed → Bool
  | .request _ => true
  | .failNext .. => false

def Deed.request? : Deed → Option Request
  | .request r => some r
  | .failNext .. => none

/--
The answers to the requests among some deeds, each with the data after it.
-/
def transcript (keys : KeySpace) (policy? : Option Policy) (bench : Bench) :
    List Deed → List (Except CounterError Answer × Data)
  | [] => []
  | .request r :: deeds =>
    let (answer, bench) := bench.serve keys policy? r
    (answer, bench.data) :: transcript keys policy? bench deeds
  | .failNext verb failure times :: deeds =>
    transcript keys policy? (bench.failNext verb failure times) deeds

end Bench

/--
The answers to some requests that are sent to the data themselves, where nothing fails and nothing
is sent again, each with the data after it.
-/
def Data.transcript (keys : KeySpace) (d : Data) :
    List Request → List (Except CounterError Answer × Data)
  | [] => []
  | r :: requests =>
    let (answer, d) := (Counters.answer keys r).run Data.send.bare d
    (answer, d) :: transcript keys d requests

namespace Bench

variable {n : Nat} {p : Policy} {bench : Bench} {keys : KeySpace} {deeds : List Deed}

theorem Glitches.transcript_request (h : bench.Glitches n) (hn : n ≤ p.maxAttempts - 1)
    (r : Request) {requests : List Request}
    (hrest : (bench.serve keys (some p) r).2.transcript keys (some p) deeds
      = (bench.serve keys (some p) r).2.data.transcript keys requests) :
    bench.transcript keys (some p) (.request r :: deeds)
      = bench.data.transcript keys (r :: requests) := by
  obtain ⟨hanswer, hafter, -⟩ := h.serve hn keys r
  rw [hafter] at hrest
  unfold transcript Data.transcript
  simp only
  rw [hanswer, hafter, hrest]

theorem transcript_eq_data
    (hpending : ∀ verb, ∀ failure ∈ bench.pending verb, failure.IsTransient)
    (htransient : ∀ verb failure times, .failNext verb failure times ∈ deeds → failure.IsTransient)
    (hfew : ∀ i r, deeds[i]? = some (.request r) → ∀ verb,
      ((bench.served keys (some p) (deeds.take i)).pending verb).length ≤ p.maxAttempts - 1) :
    bench.transcript keys (some p) deeds
      = bench.data.transcript keys (deeds.filterMap Deed.request?) := by
  induction deeds generalizing bench with
  | nil => rfl
  | cons deed deeds ih =>
    have htransient' : ∀ verb failure times, Deed.failNext verb failure times ∈ deeds →
        failure.IsTransient :=
      fun verb failure times h => htransient verb failure times (List.mem_cons_of_mem _ h)
    cases deed with
    | request r =>
      have hglitches : bench.Glitches (p.maxAttempts - 1) := ⟨hpending, hfew 0 r rfl⟩
      obtain ⟨-, -, hleft⟩ := hglitches.serve (Nat.le_refl _) keys r
      apply hglitches.transcript_request (Nat.le_refl _)
      exact ih hleft.transient htransient' fun i r' hr' => hfew (i + 1) r' hr'
    | failNext verb failure times =>
      have hqueued : ∀ v, ∀ f ∈ (bench.failNext verb failure times).pending v, f.IsTransient := by
        intro v f hf
        rcases mem_pending_failNext hf with hf | rfl
        · exact hpending v f hf
        · exact htransient verb _ times List.mem_cons_self
      exact ih hqueued htransient' fun i r' hr' => hfew (i + 1) r' hr'

/--
A session without failures gets the answers of the data, whatever its policy.
-/
theorem transcript_filter_eq_data (hquiet : bench.Glitches 0) (deeds : List Deed) :
    bench.transcript keys (some p) (deeds.filter Deed.isRequest)
      = bench.data.transcript keys (deeds.filterMap Deed.request?) := by
  induction deeds generalizing bench with
  | nil => rfl
  | cons deed deeds ih =>
    cases deed with
    | request r =>
      obtain ⟨-, -, hleft⟩ := hquiet.serve (p := p) (Nat.zero_le _) keys r
      exact hquiet.transcript_request (Nat.zero_le _) r (ih hleft)
    | failNext verb failure times => exact ih hquiet

/--
Retries hide failures that may pass. If fewer of them are queued for each kind of command at the
start of each request than the policy has attempts, all requests are answered as if there were none,
and they leave the same data. Both are what the requests come to on the data alone.
-/
theorem retries_hide_failures (keys : KeySpace) (p : Policy) (deeds : List Deed)
    (htransient : ∀ verb failure times, .failNext verb failure times ∈ deeds → failure.IsTransient)
    (hfew : ∀ i r, deeds[i]? = some (.request r) → ∀ verb,
      ((empty.served keys (some p) (deeds.take i)).pending verb).length ≤ p.maxAttempts - 1) :
    empty.transcript keys (some p) deeds
        = empty.transcript keys (some p) (deeds.filter Deed.isRequest)
      ∧ empty.transcript keys (some p) deeds
        = Data.empty.transcript keys (deeds.filterMap Deed.request?) := by
  have hpending : ∀ verb, ∀ failure ∈ empty.pending verb, failure.IsTransient := by
    intro verb failure h
    cases h
  have hdata := transcript_eq_data hpending htransient hfew
  have hempty : empty.Glitches 0 := glitches_zero fun _ => rfl
  exact ⟨hdata.trans (transcript_filter_eq_data hempty deeds).symm, hdata⟩

/--
Failures of five kinds of commands, two of them met by reads that are made at the same time.
-/
theorem retries_hide_failures_of_all_requests :
    let noon : Instant := ⟨⟨2024, 2, 29, by decide, by decide, by decide⟩, 43200, 0, by decide,
      by decide, by decide⟩
    let later : Instant := ⟨⟨2024, 3, 2, by decide, by decide, by decide⟩, 0, 0, by decide,
      by decide, by decide⟩
    let busy : Failure := .reported .busyLoadingError "Redis is loading" none
    let deeds : List Deed := [.failNext .hincrby .timeout 2, .failNext .sadd busy 1,
      .request (.increment "a" ⟨5, by decide, by decide⟩ noon), .failNext .get .timeout 2,
      .request (.total "a"), .failNext .hgetall .timeout 1, .failNext .hgetall busy 1,
      .request (.counts "a" noon later .hour), .failNext .srem .timeout 2, .request (.reset "a")]
    (∀ verb failure times, .failNext verb failure times ∈ deeds → failure.IsTransient)
      ∧ (∀ i r, deeds[i]? = some (.request r) → ∀ verb,
        ((empty.served .standard (some .standard) (deeds.take i)).pending verb).length ≤ 2)
      ∧ empty.transcript .standard (some .standard) deeds
        = empty.transcript .standard (some .standard) (deeds.filter Deed.isRequest)
      ∧ empty.transcript .standard (some .standard) deeds
        = Data.empty.transcript .standard (deeds.filterMap Deed.request?) := by
  intro noon later busy deeds
  have htransient : ∀ verb failure times, .failNext verb failure times ∈ deeds →
      failure.IsTransient := by
    intro verb failure times h
    simp only [deeds, List.mem_cons, Deed.failNext.injEq, reduceCtorEq, List.not_mem_nil, false_or,
      or_false] at h
    rcases h with ⟨-, rfl, -⟩ | ⟨-, rfl, -⟩ | ⟨-, rfl, -⟩ | ⟨-, rfl, -⟩ | ⟨-, rfl, -⟩ | ⟨-, rfl, -⟩
    all_goals decide
  have hall : ∀ i < 10, ∀ verb ∈ Verb.all,
      ((empty.served .standard (some .standard) (deeds.take i)).pending verb).length ≤ 2 := by
    decide +kernel
  have hfew : ∀ i r, deeds[i]? = some (.request r) → ∀ verb,
      ((empty.served .standard (some .standard) (deeds.take i)).pending verb).length ≤ 2 := by
    intro i r hi verb
    exact hall i (List.getElem?_eq_some_iff.1 hi).1 verb (Verb.mem_all verb)
  exact ⟨htransient, hfew, retries_hide_failures .standard .standard deeds htransient hfew⟩

end Bench

end Store

end Rollup
