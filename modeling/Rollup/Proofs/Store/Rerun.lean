import Rollup.Proofs.Store.Isolation
import Rollup.Proofs.Store.Lossy

/-!
This module contains resets of a counter in a store that breaks down at one of their commands. The
main statement is `reset_again`: however many resets have been given up half way, running one more
leaves what a single reset would have left.
-/

namespace Rollup

open Rollup.Retry Rollup.Store Rollup.Time

namespace Retry.Observed

variable {σ α : Type} (policy? : Option Policy) {client : Client σ} {o : Observed σ} {c : Command}
variable {next : c.Reply → Program α} {out : Except CounterError α × Observed σ}

theorem run_send_bind_of_ok {reply : c.Reply} {s : σ} (h : client c o.state = (.ok reply, s))
    (hrun : ((Program.send c).bind next).run (runtime policy? client) o = out) :
    ∃ o', o'.state = s ∧ (next reply).run (runtime policy? client) o' = out := by
  have hfirst : ∀ s failure, s = o.state → (client c s).1 = .error failure →
      (client c s).2 = o.state := by
    rintro _ failure rfl hfailure
    rw [h] at hfailure
    cases hfailure
  obtain ⟨last, rfl, hresult, hafter⟩ := send_last policy? c hfirst rfl
  rw [h] at hresult hafter
  refine ⟨_, hafter, ?_⟩
  rw [Program.run_send_bind] at hrun
  generalize (runtime policy? client).send c o = sent at hresult hrun ⊢
  obtain ⟨result, o'⟩ := sent
  cases hresult
  exact hrun

/--
A command that fails whenever it is sent ends a program, however often it is sent.
-/
theorem run_send_bind_of_error {failure : Failure} {P : σ → Prop}
    (h : ∀ s, P s → (client c s).1 = .error failure ∧ P (client c s).2) (ho : P o.state)
    (hrun : ((Program.send c).bind next).run (runtime policy? client) o = out) :
    out.1 = .error (.store failure) ∧ P out.2.state := by
  obtain ⟨last, hlast, hresult, hafter⟩ := send_last policy? c (fun s _ hs _ => (h s hs).2) ho
  obtain ⟨hfailure, hstate⟩ := h last hlast
  rw [hfailure] at hresult
  rw [← hafter] at hstate
  rw [Program.run_send_bind] at hrun
  generalize (runtime policy? client).send c o = sent at hresult hstate hrun
  obtain ⟨result, o'⟩ := sent
  cases hresult
  cases hrun
  exact ⟨rfl, hstate⟩

end Retry.Observed

namespace Store

namespace Data

variable {keys : KeySpace} {name key : String} {d after : Data}

structure Vacant (key : String) (d : Data) : Prop where
  strings : key ∉ d.strings
  hashes : key ∉ d.hashes
  sets : key ∉ d.sets

theorem vacant_del (key : String) (d : Data) : (d.del key).Vacant key := by
  rw [del_eq_foldl]
  constructor
  · exact fun h => ((mem_strings_foldl_del _ _).1 h).2 List.mem_cons_self
  · exact fun h => ((mem_hashes_foldl_del _ _).1 h).2 List.mem_cons_self
  · exact fun h => ((mem_sets_foldl_del _ _).1 h).2 List.mem_cons_self

namespace Vacant

theorem foldl_del (h : d.Vacant key) (gone : List String) : (gone.foldl del d).Vacant key where
  strings := fun hmem => h.strings ((mem_strings_foldl_del gone key).1 hmem).1
  hashes := fun hmem => h.hashes ((mem_hashes_foldl_del gone key).1 hmem).1
  sets := fun hmem => h.sets ((mem_sets_foldl_del gone key).1 hmem).1

theorem srem (h : d.Vacant key) (k : String) (gone : List String) : (d.srem k gone).Vacant key where
  strings := by
    rw [strings_srem]
    exact h.strings
  hashes := by
    rw [hashes_srem]
    exact h.hashes
  sets := mt mem_sets_of_mem_srem h.sets

theorem del_eq (h : d.Vacant key) : d.del key = d :=
  ext (erase_of_not_mem h.strings) (erase_of_not_mem h.hashes) (erase_of_not_mem h.sets)

end Vacant

/--
The buckets that a reset of a counter finds listed.
-/
def listed (keys : KeySpace) (name : String) (d : Data) : List String :=
  (d.members (keys.bookkeeping name)).toList

theorem listed_eq (h : after.members (keys.bookkeeping name) = d.members (keys.bookkeeping name)) :
    after.listed keys name = d.listed keys name :=
  congrArg Std.ExtTreeSet.toList h

@[simp]
theorem listed_del_total : (d.del (keys.total name)).listed keys name = d.listed keys name :=
  listed_eq members_del_total

theorem reset_eq (keys : KeySpace) (name : String) (d : Data) : d.reset keys name
    = (((d.listed keys name).foldl del (d.del (keys.total name))).srem (keys.bookkeeping name)
      (d.listed keys name)).srem keys.names [name] := by
  simp only [reset, listed, members_del_total]

theorem Tidy.not_mem_listed (h : d.Tidy keys) (hkey : ∀ n, ¬keys.IsBucketOf n key) :
    key ∉ d.listed keys name := by
  rw [listed, Std.ExtTreeSet.mem_toList]
  exact fun hmember => hkey name (h name key hmember)

theorem Tidy.bookkeeping_not_mem_listed (h : d.Tidy keys) :
    keys.bookkeeping name ∉ d.listed keys name := by
  apply h.not_mem_listed
  rintro n ⟨level, a, hkey⟩
  exact KeySpace.bookkeeping_ne_bucket hkey

theorem Tidy.names_not_mem_listed (h : d.Tidy keys) : keys.names ∉ d.listed keys name := by
  apply h.not_mem_listed
  rintro n ⟨level, a, hkey⟩
  exact KeySpace.names_ne_bucket hkey

/--
What a reset of a counter may leave if it ends before all of its commands are done.
-/
inductive PartlyReset (keys : KeySpace) (name : String) (d : Data) : Data → Prop where
  | untouched : PartlyReset keys name d d
  | total : PartlyReset keys name d (d.del (keys.total name))
  | buckets : PartlyReset keys name d ((d.listed keys name).foldl del (d.del (keys.total name)))
  | bookkeeping : PartlyReset keys name d
    (((d.listed keys name).foldl del (d.del (keys.total name))).srem (keys.bookkeeping name)
      (d.listed keys name))

namespace PartlyReset

/--
Running a reset again does what was left to do, however much of it had been done.
-/
theorem reset_eq (htidy : d.Tidy keys) (h : PartlyReset keys name d after) :
    after.reset keys name = d.reset keys name := by
  have htotal := vacant_del (keys.total name) d
  have hmembers : ((d.listed keys name).foldl del (d.del (keys.total name))).members
      (keys.bookkeeping name) = d.members (keys.bookkeeping name) := by
    rw [members_foldl_del, if_neg htidy.bookkeeping_not_mem_listed, members_del_total]
  rw [Data.reset_eq, Data.reset_eq]
  cases h with
  | untouched => rfl
  | total =>
    rw [htotal.del_eq, listed_del_total]
  | buckets =>
    rw [(htotal.foldl_del _).del_eq, listed_eq hmembers, foldl_del_foldl_del]
  | bookkeeping =>
    -- nothing is listed any more, so there is nothing to remove and to take out
    have hset : keys.bookkeeping name ∉ (((d.listed keys name).foldl del
        (d.del (keys.total name))).srem (keys.bookkeeping name) (d.listed keys name)).sets := by
      intro hmem
      obtain ⟨m, hm, hnot⟩ := mem_sets_srem hmem
      rw [hmembers] at hm
      exact hnot (Std.ExtTreeSet.mem_toList.2 hm)
    rw [((htotal.foldl_del _).srem _ _).del_eq]
    generalize ((d.listed keys name).foldl del (d.del (keys.total name))).srem
      (keys.bookkeeping name) (d.listed keys name) = after at hset ⊢
    have hnone : after.listed keys name = [] := by
      rw [listed, members, Std.ExtTreeMap.getD_eq_fallback hset]
      rfl
    rw [hnone, List.foldl_nil, srem_of_eq_none (Std.ExtTreeMap.getElem?_eq_none hset)]

theorem members_subset (h : PartlyReset keys name d after) {k m : String}
    (hm : m ∈ after.members k) : m ∈ d.members k := by
  have hdel : ∀ (gone : List String) {d : Data},
      m ∈ (gone.foldl del d).members k → m ∈ d.members k := by
    intro gone d hm
    rw [members_foldl_del] at hm
    split at hm
    · exact absurd hm Std.ExtTreeSet.not_mem_empty
    · exact hm
  cases h with
  | untouched => exact hm
  | total => exact hdel [_] hm
  | buckets => exact hdel [_] (hdel _ hm)
  | bookkeeping => exact hdel [_] (hdel _ (mem_members_srem.1 hm).1)

theorem tidy (htidy : d.Tidy keys) (h : PartlyReset keys name d after) : after.Tidy keys :=
  fun n member hmember => htidy n member (h.members_subset hmember)

theorem members_names (htidy : d.Tidy keys) (h : PartlyReset keys name d after) {n : String} :
    n ∈ after.members keys.names ↔ n ∈ d.members keys.names := by
  have htotal : (d.del (keys.total name)).members keys.names = d.members keys.names := by
    rw [del_eq_foldl, members_foldl_del, if_neg (by simp)]
  have hbuckets : ((d.listed keys name).foldl del (d.del (keys.total name))).members keys.names
      = d.members keys.names := by
    rw [members_foldl_del, if_neg htidy.names_not_mem_listed, htotal]
  cases h with
  | untouched => exact Iff.rfl
  | total => rw [htotal]
  | buckets => rw [hbuckets]
  | bookkeeping =>
    rw [mem_members_srem, hbuckets]
    simp

end PartlyReset

end Data

namespace Bench

open Observed

def calm (bench : Bench) : Bench :=
  { bench with failures := [] }

/--
Send a command to a store that breaks down once it has received a number of commands.
-/
def sendUntil (n : Nat) (failure : Failure) : Client Bench := fun c bench =>
  if bench.log.length < n then
    send c bench
  else
    send c (bench.failNext c.verb failure 1)

structure Outage where
  -- the number of commands that are done before
  after : Nat
  failure : Failure

def resetDuring (keys : KeySpace) (policy? : Option Policy) (name : String) (bench : Bench)
    (outage : Outage) : Except CounterError Answer × Bench :=
  (sendUntil (bench.log.length + outage.after) outage.failure).serve keys policy? bench
    (.reset name)

section

variable {α : Type} {client : Client Bench} {policy? : Option Policy} {o : Observed Bench}
variable {c : Command} {reply : c.Reply} {d : Data} {out : Except CounterError α × Observed Bench}

theorem send_of_failures_eq_nil {bench : Bench} (hcalm : bench.failures = [])
    (h : Data.send c bench.data = (.ok reply, d)) :
    send c bench = (.ok reply, ⟨d, [], c :: bench.log⟩) := by
  obtain ⟨data, failures, log⟩ := bench
  cases hcalm
  have h : Data.send c data = (.ok reply, d) := h
  simp [send, takeFirst, h]

/--
A store that has broken down: it receives commands but does none of them.
-/
structure Down (n : Nat) (d : Data) (bench : Bench) : Prop where
  log : n ≤ bench.log.length
  data : bench.data = d
  failures : bench.failures = []

theorem Down.send {n : Nat} {bench : Bench} (h : bench.Down n d) (failure : Failure) (c : Command) :
    (sendUntil n failure c bench).1 = .error failure
      ∧ (sendUntil n failure c bench).2.Down n d := by
  obtain ⟨data, failures, log⟩ := bench
  obtain ⟨hlog, rfl, rfl⟩ := h
  rw [sendUntil, if_neg (Nat.not_lt.2 hlog)]
  simp only [Bench.send, failNext, List.nil_append, List.replicate_one, takeFirst, if_pos]
  exact ⟨trivial, Nat.le_succ_of_le hlog, rfl, rfl⟩

/--
A command to a store that breaks down is either done or fails without any effect.
-/
theorem run_sendUntil_cases {n : Nat} {failure : Failure} (hcalm : o.state.failures = [])
    (h : Data.send c o.state.data = (.ok reply, d)) {next : c.Reply → Program α}
    (hrun : ((Program.send c).bind next).run (runtime policy? (sendUntil n failure)) o = out) :
    (o.state.log.length < n ∧ ∃ o', o'.state = ⟨d, [], c :: o.state.log⟩
      ∧ (next reply).run (runtime policy? (sendUntil n failure)) o' = out)
    ∨ (n ≤ o.state.log.length ∧ out.1 = .error (.store failure)
      ∧ out.2.state.Down n o.state.data) := by
  by_cases hn : o.state.log.length < n
  · refine Or.inl ⟨hn, run_send_bind_of_ok policy? ?_ hrun⟩
    rw [sendUntil, if_pos hn, send_of_failures_eq_nil hcalm h]
  · have hn : n ≤ o.state.log.length := Nat.le_of_not_lt hn
    exact Or.inr ⟨hn, run_send_bind_of_error policy? (fun s hs => hs.send failure c)
      ⟨hn, rfl, hcalm⟩ hrun⟩

end

section

variable (policy? : Option Policy) {keys : KeySpace} {name : String} {o : Observed Bench}

theorem run_reset_of_calm (hname : name ≠ "") (hcalm : o.state.failures = []) :
    let out := (Counters.reset keys name).run (runtime policy? send) o
    out.1 = .ok () ∧ out.2.state.data = o.state.data.reset keys name
      ∧ out.2.state.log.length = o.state.log.length + 5 := by
  intro out
  have hrun : (Counters.reset keys name).run (runtime policy? send) o = out := rfl
  generalize out = out at hrun ⊢
  unfold Counters.reset checkName at hrun
  rw [if_neg hname] at hrun
  obtain ⟨o₁, ho₁, hrun₁⟩ := run_send_bind_of_ok policy? (send_of_failures_eq_nil hcalm rfl) hrun
  obtain ⟨o₂, ho₂, hrun₂⟩ := run_send_bind_of_ok policy?
    (send_of_failures_eq_nil (congrArg failures ho₁) rfl) hrun₁
  obtain ⟨o₃, ho₃, hrun₃⟩ := run_send_bind_of_ok policy?
    (send_of_failures_eq_nil (congrArg failures ho₂) rfl) hrun₂
  obtain ⟨o₄, ho₄, hrun₄⟩ := run_send_bind_of_ok policy?
    (send_of_failures_eq_nil (congrArg failures ho₃) rfl) hrun₃
  obtain ⟨o₅, ho₅, hrun₅⟩ := run_send_bind_of_ok policy?
    (send_of_failures_eq_nil (congrArg failures ho₄) rfl) hrun₄
  have hstate : out.2.state = o₅.state := by
    rw [← hrun₅]
    exact state_report policy? .wasReset
  rw [hstate, ho₅, ho₄, ho₃, ho₂, ho₁, ← hrun₅]
  exact ⟨rfl, rfl, rfl⟩

/--
However many commands are done before the store breaks down, a reset tells that it has failed.
-/
theorem run_reset_of_outage (hname : name ≠ "") (hcalm : o.state.failures = []) {outage : Outage}
    (houtage : outage.after < 5) :
    let out := (Counters.reset keys name).run
      (runtime policy? (sendUntil (o.state.log.length + outage.after) outage.failure)) o
    out.1 = .error (.store outage.failure) ∧ o.state.data.PartlyReset keys name out.2.state.data
      ∧ out.2.state.failures = [] := by
  intro out
  have hrun : (Counters.reset keys name).run _ o = out := rfl
  generalize out = out at hrun ⊢
  unfold Counters.reset checkName at hrun
  rw [if_neg hname] at hrun
  -- all commands before the one that failed have been done
  obtain ⟨-, o₁, ho₁, hrun₁⟩ | ⟨-, hfailure, hdown⟩ := run_sendUntil_cases hcalm rfl hrun
  swap
  · exact ⟨hfailure, hdown.data ▸ .untouched, hdown.failures⟩
  have htotal : o₁.state.data = o.state.data.del (keys.total name) := by rw [ho₁]
  obtain ⟨-, o₂, ho₂, hrun₂⟩ | ⟨-, hfailure, hdown⟩ :=
    run_sendUntil_cases (congrArg failures ho₁) rfl hrun₁
  swap
  · exact ⟨hfailure, hdown.data ▸ htotal ▸ .total, hdown.failures⟩
  have hsame : o₂.state.data = o₁.state.data := by rw [ho₂]
  obtain ⟨-, o₃, ho₃, hrun₃⟩ | ⟨-, hfailure, hdown⟩ :=
    run_sendUntil_cases (congrArg failures ho₂) rfl hrun₂
  swap
  · exact ⟨hfailure, hdown.data ▸ hsame ▸ htotal ▸ .total, hdown.failures⟩
  have hlisted : (o₁.state.data.members (keys.bookkeeping name)).toList
      = o.state.data.listed keys name := by
    rw [htotal]
    exact Data.listed_del_total
  have hbuckets : o₃.state.data = (o.state.data.listed keys name).foldl Data.del
      (o.state.data.del (keys.total name)) := by
    rw [ho₃, hsame, hlisted, htotal]
  obtain ⟨-, o₄, ho₄, hrun₄⟩ | ⟨-, hfailure, hdown⟩ :=
    run_sendUntil_cases (congrArg failures ho₃) rfl hrun₃
  swap
  · exact ⟨hfailure, hdown.data ▸ hbuckets ▸ .buckets, hdown.failures⟩
  have hbookkeeping : o₄.state.data = ((o.state.data.listed keys name).foldl Data.del
      (o.state.data.del (keys.total name))).srem (keys.bookkeeping name)
        (o.state.data.listed keys name) := by
    rw [ho₄, hbuckets, hlisted]
  obtain ⟨hlog, -⟩ | ⟨-, hfailure, hdown⟩ :=
    run_sendUntil_cases (congrArg failures ho₄) rfl hrun₄
  · rw [ho₄, ho₃, ho₂, ho₁] at hlog
    simp only [List.length_cons] at hlog
    omega
  · exact ⟨hfailure, hdown.data ▸ hbookkeeping ▸ .bookkeeping, hdown.failures⟩

theorem serve_reset (client : Client Bench) (bench : Bench) :
    client.serve keys policy? bench (.reset name)
      = let out := (Counters.reset keys name).run (runtime policy? client) (.start bench)
        (out.1.map fun _ => .done, out.2.state) := by
  unfold Client.serve Counters.answer
  rw [Program.run_map]

theorem serve_reset_of_calm (hname : name ≠ "") {bench : Bench} (hcalm : bench.failures = []) :
    let out := bench.serve keys policy? (.reset name)
    out.1 = .ok .done ∧ out.2.data = bench.data.reset keys name
      ∧ out.2.log.length = bench.log.length + 5 := by
  obtain ⟨hresult, hdata, hlog⟩ :=
    run_reset_of_calm policy? (o := .start bench) hname hcalm
  unfold serve
  rw [serve_reset]
  exact ⟨congrArg (Except.map _) hresult, hdata, hlog⟩

theorem resetDuring_of_calm (hname : name ≠ "") {bench : Bench} (hcalm : bench.failures = [])
    {outage : Outage} (houtage : outage.after < 5) :
    let out := bench.resetDuring keys policy? name outage
    out.1 = .error (.store outage.failure) ∧ bench.data.PartlyReset keys name out.2.data
      ∧ out.2.failures = [] := by
  obtain ⟨hresult, hpartly, hfailures⟩ :=
    run_reset_of_outage policy? (o := .start bench) hname hcalm houtage
  unfold resetDuring
  rw [serve_reset]
  exact ⟨congrArg (Except.map _) hresult, hpartly, hfailures⟩

end

/--
The store after some resets during outages.
-/
def giveUp (keys : KeySpace) (policy? : Option Policy) (name : String) (bench : Bench)
    (outages : List Outage) : Bench :=
  outages.foldl (fun bench outage => (bench.resetDuring keys policy? name outage).2) bench

/--
A store in which a reset of a counter still has the effect it had in another one.
-/
structure Resumable (keys : KeySpace) (name : String) (bench after : Bench) : Prop where
  tidy : after.data.Tidy keys
  calm : after.failures = []
  reset : after.data.reset keys name = bench.data.reset keys name
  named : ∀ n, n ∈ after.data.members keys.names ↔ n ∈ bench.data.members keys.names

namespace Resumable

variable {keys : KeySpace} {policy? : Option Policy} {name : String} {bench after : Bench}
variable {outages : List Outage}

theorem resetDuring (h : bench.Resumable keys name after) (hname : name ≠ "") {outage : Outage}
    (houtage : outage.after < 5) :
    bench.Resumable keys name (after.resetDuring keys policy? name outage).2 := by
  obtain ⟨-, hpartly, hcalm⟩ := resetDuring_of_calm policy? hname h.calm houtage
  exact ⟨hpartly.tidy h.tidy, hcalm, (hpartly.reset_eq h.tidy).trans h.reset,
    fun n => (hpartly.members_names h.tidy).trans (h.named n)⟩

theorem giveUp (h : bench.Resumable keys name after) (hname : name ≠ "")
    (houtages : ∀ outage ∈ outages, outage.after < 5) :
    bench.Resumable keys name (after.giveUp keys policy? name outages) := by
  induction outages generalizing after with
  | nil => exact h
  | cons outage outages ih =>
    obtain ⟨houtage, hrest⟩ := List.forall_mem_cons.1 houtages
    exact ih (h.resetDuring hname houtage) hrest

end Resumable

/--
A reset that failed at any of its commands can simply be run again: however often the store broke
down before, a reset that is not interrupted succeeds and leaves what it would have left at first,
which is the data without the counter, and until then all names are still listed.
-/
theorem reset_again (keys : KeySpace) (policy? : Option Policy) (deeds : List Deed) {name : String}
    (hname : name ≠ "") {outages : List Outage} (houtages : ∀ outage ∈ outages, outage.after < 5) :
    let bench := (empty.served keys policy? deeds).calm
    let broken := bench.giveUp keys policy? name outages
    let once := bench.serve keys policy? (.reset name)
    let again := broken.serve keys policy? (.reset name)
    (once.1 = .ok .done ∧ once.2.data = bench.data.reset keys name
        ∧ once.2.log.length = bench.log.length + 5)
      ∧ (∀ outage : Outage, outage.after < 5 →
        (broken.resetDuring keys policy? name outage).1 = .error (.store outage.failure))
      ∧ (∀ n, n ∈ broken.data.members keys.names ↔ n ∈ bench.data.members keys.names)
      ∧ again.1 = .ok .done ∧ again.2.data = once.2.data := by
  intro bench broken once again
  have hbroken : bench.Resumable keys name broken :=
    .giveUp ⟨tidy_served keys policy? deeds, rfl, rfl, fun _ => Iff.rfl⟩ hname houtages
  have hbench : bench.failures = [] := rfl
  obtain ⟨honce, hdata, hlog⟩ := serve_reset_of_calm policy? hname hbench
  obtain ⟨hagain, hdata', -⟩ := serve_reset_of_calm policy? hname hbroken.calm
  have hsame : again.2.data = once.2.data := hdata'.trans (hbroken.reset.trans hdata.symm)
  exact ⟨⟨honce, hdata, hlog⟩, fun outage h => (resetDuring_of_calm policy? hname hbroken.calm h).1,
    hbroken.named, hagain, hsame⟩

/--
An increment that fails half way, and two resets that do: one at its first command and one at its
last.
-/
theorem reset_again_after_halfIncrement :
    let noon : Instant := ⟨⟨2024, 2, 29, by decide, by decide, by decide⟩, 43200, 0, by decide,
      by decide, by decide⟩
    let deeds : List Deed := [.request (.increment "a" ⟨5, by decide, by decide⟩ noon),
      .failNext .sadd .timeout 2, .request (.increment "a" ⟨1, by decide, by decide⟩ noon)]
    let outages : List Outage := [⟨0, .timeout⟩, ⟨4, .notFound⟩]
    ("a" ≠ "" ∧ ∀ outage ∈ outages, outage.after < 5)
      ∧ "a" ∈ ((empty.served .standard none deeds).calm.giveUp .standard none "a"
        outages).data.members KeySpace.standard.names
      ∧ (((empty.served .standard none deeds).calm.giveUp .standard none "a" outages).serve
          .standard none (.reset "a")).2.data
        = ((empty.served .standard none deeds).calm.serve .standard none (.reset "a")).2.data
      ∧ ((empty.served .standard none deeds).calm.serve .standard none (.reset "a")).2.data
        = (empty.served .standard none deeds).calm.data.reset .standard "a" := by
  intro noon deeds outages
  have hname : "a" ≠ "" := by decide
  have houtages : ∀ outage ∈ outages, outage.after < 5 := by decide
  obtain ⟨⟨-, hdata, -⟩, -, hnamed, -, hsame⟩ := reset_again .standard none deeds hname houtages
  exact ⟨⟨hname, houtages⟩, (hnamed "a").2 (by decide +kernel), hsame, hdata⟩

end Bench

end Store

end Rollup
