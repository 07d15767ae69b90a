import Rollup.Proofs.KeySpace
import Rollup.Proofs.Series.Stitch
import Rollup.Proofs.Store.Reading
import Rollup.Proofs.Store.Sends

/-!
This module contains counters of which a store holds nothing: they stay so until they are
incremented, and all that is read of them is zero.
-/

namespace Rollup.Store

open Rollup.Time

/--
A command that adds nothing to the named counter.
-/
def Command.Spares (keys : KeySpace) (name : String) : Command → Prop
  | .hincrby key _ _ => ¬keys.IsBucketOf name key
  | .incrBy key _ => key ≠ keys.total name
  | .sadd key member => key ≠ keys.bookkeeping name ∧ ¬(key = keys.names ∧ member = name)
  | _ => True

structure Data.Cleared (keys : KeySpace) (name : String) (d : Data) : Prop where
  total : keys.total name ∉ d.strings
  bookkeeping : keys.bookkeeping name ∉ d.sets
  unnamed : name ∉ d.members keys.names
  buckets : ∀ key, keys.IsBucketOf name key → key ∉ d.hashes

/--
An answer shows nothing of the named counter: no total but zero, no list that has its name, and no
series with other counts than zeros.
-/
def ShowsNothing (name : String) : Request → Except CounterError Answer → Prop
  | .total n, .ok (.count total) => n = name → total = 0
  | .list, .ok (.names names) => name ∉ names
  | .counts n .., .ok (.series series) => n = name → ∀ count ∈ series.counts, count = 0
  | .countsEnding n .., .ok (.series series) => n = name → ∀ count ∈ series.counts, count = 0
  | _, _ => True

/--
A query that no failure can reach is answered: with a total of zero, with a list, and with a series
unless the interval or its units are not representable.
-/
def Answers (name : String) : Request → Except CounterError Answer → Prop
  | .total n, answer => n = name → answer = .ok (.count 0)
  | .list, answer => ∃ names, answer = .ok (.names names)
  | .counts n .., answer => n = name → ∀ failure, answer ≠ .error (.store failure)
  | .countsEnding n .., answer => n = name → ∀ failure, answer ≠ .error (.store failure)
  | _, _ => True

variable {keys : KeySpace} {name : String}

theorem Counters.spares_of_maySend {r : Request} {c : Command} (h : MaySend keys r c)
    (hr : ∀ amount instant, r ≠ .increment name amount instant) : c.Spares keys name := by
  cases r with
  | increment n amount instant =>
    have hn : n ≠ name := by
      rintro rfl
      exact hr amount instant rfl
    rcases h with ⟨level, hlevel, rfl | rfl⟩ | rfl | rfl
    · intro hbucket
      exact hn ((KeySpace.isBucketOf_of_mem_levels hlevel).eq hbucket)
    · exact ⟨mt KeySpace.bookkeeping_inj.1 hn, by simp⟩
    · exact ⟨by simp, fun both => hn both.2⟩
    · exact mt KeySpace.total_inj.1 hn
  | reset n => rcases h with rfl | rfl | ⟨_, rfl | rfl⟩ | rfl <;> trivial
  | list =>
    rw [show c = _ from h]
    trivial
  | total n =>
    rw [show c = _ from h]
    trivial
  | counts n start finish r =>
    rw [show c = _ from h]
    trivial
  | countsEnding n count finish r =>
    rw [show c = _ from h]
    trivial

namespace Data.Cleared

variable {d after : Data} {c : Command} {result : Except Failure c.Reply}

theorem step (h : d.Cleared keys name) (hc : c.Spares keys name) (hget : MayGet c d result after) :
    after.Cleared keys name := by
  have hchanged := hget.changed
  constructor
  · intro htotal
    rcases hchanged.mem_strings htotal with hbefore | ⟨amount, rfl⟩
    · exact h.total hbefore
    · exact hc rfl
  · intro hset
    rcases hchanged.mem_sets hset with hbefore | ⟨m, rfl⟩
    · exact h.bookkeeping hbefore
    · exact hc.1 rfl
  · intro hmember
    rcases (hget.mem_members_iff _ _).1 hmember with hrecords | ⟨hbefore, -⟩
    · obtain rfl : c = .sadd keys.names name := hrecords.command_eq
      exact hc.2 ⟨rfl, rfl⟩
    · exact h.unnamed hbefore
  · intro key hkey hhash
    rcases (hget.mem_hashes_iff _).1 hhash with hcounts | ⟨hbefore, -⟩
    · obtain ⟨field, amount, heq⟩ := hcounts.command_eq
      obtain rfl : c = .hincrby key field amount := heq
      exact hc hkey
    · exact h.buckets key hkey hbefore

variable {σ α : Type} {client : Client σ} {data : σ → Data}

theorem run (hclient : client.WorksOn data) {p : Program α} (hp : p.Sends (Command.Spares keys name))
    {s : σ} (h : (data s).Cleared keys name) :
    (data (p.run client.bare s).2).Cleared keys name := by
  induction p generalizing s with
  | done result => exact h
  | call c rest ih => exact ih _ (hp.2 _) (h.step hp.1 (hclient c s))
  | readAll places rest ih =>
    apply ih _ (hp _)
    exact Client.readInTurn_preserves (P := fun s : σ => (data s).Cleared keys name)
      (fun place s hs => hs.step (by trivial) (hclient (.hgetall place) s)) places h
  | report event rest ih => exact ih hp h

/--
Nothing but an increment of a counter makes a store hold anything of it.
-/
theorem run_answer (hclient : client.WorksOn data) {s : σ} (h : (data s).Cleared keys name)
    {r : Request} (hr : ∀ amount instant, r ≠ .increment name amount instant) :
    (data ((Counters.answer keys r).run client.bare s).2).Cleared keys name := by
  apply run hclient _ h
  exact (Counters.sends_answer r).mono fun c hc => Counters.spares_of_maySend hc hr

theorem hash_eq_empty (h : d.Cleared keys name) (level : Level) (a : Instant) :
    d.hash (keys.bucket name level a) = ∅ := by
  have := h.buckets _ (keys.isBucketOf_bucket name level a)
  rw [hash, Std.ExtTreeMap.getD_eq_fallback this]

theorem counts_eq_zero (h : d.Cleared keys name) {interval : Interval} {r : Resolution}
    {counts : List Count} (hcounts : (source keys d).counts name interval r = .ok counts) :
    ∀ count ∈ counts, count = 0 := by
  rw [source, Source.counts_oneByOne] at hcounts
  cases hb : r.bucket? with
  | none =>
    simp only [hb] at hcounts
    cases hcounts
    have hyears : Counters.yearsOf (d.hash (keys.years name)) = ∅ := by
      rw [← keys.bucket_years name interval.start, h.hash_eq_empty]
      rfl
    intro count hcount
    rw [hyears] at hcount
    obtain ⟨i, -, rfl⟩ := List.mem_map.1 hcount
    exact Std.ExtTreeMap.getD_empty
  | some b =>
    simp only [hb] at hcounts
    cases hstarts : b.startsOf interval with
    | error e =>
      rw [hstarts] at hcounts
      cases hcounts
    | ok starts =>
      rw [hstarts] at hcounts
      change b.cutRows interval _ = _ at hcounts
      unfold Bucket.cutRows at hcounts
      split at hcounts
      · cases hcounts
        intro count hcount
        rcases Row.mem_cut hcount with hzero | ⟨row, hrow, hcount⟩
        · exact hzero
        · obtain ⟨start, -, rfl⟩ := List.mem_map.1 hrow
          rw [Bucket.key, h.hash_eq_empty] at hcount
          exact List.eq_of_mem_replicate hcount
      · cases hcounts

theorem showsNothing_of_run_counts (hclient : client.WorksOn data) {s : σ}
    (h : (data s).Cleared keys name) {n : String} {interval : Interval} {r : Resolution}
    {series : Series} (hn : n = name)
    (hrun : ((Counters.counts keys n interval r).run client.bare s).1 = .ok series) :
    ∀ count ∈ series.counts, count = 0 := by
  subst hn
  obtain ⟨-, hresolve⟩ := Counters.run_counts_eq_ok hclient hrun
  unfold Source.resolve at hresolve
  cases hcounts : (source keys (data s)).counts n interval r with
  | error e =>
    rw [hcounts] at hresolve
    cases hresolve
  | ok counts =>
    rw [hcounts] at hresolve
    cases hresolve
    exact h.counts_eq_zero hcounts

theorem showsNothing_of_query (hclient : client.WorksOn data) {s : σ}
    (h : (data s).Cleared keys name) {n : String} (hn : n = name)
    (interval? : Except CounterError Interval) (r : Resolution) {series : Series}
    (hrun : ((do
      let interval ← liftExcept interval?
      Answer.series <$> Counters.counts keys n interval r : Program Answer).run client.bare s).1
        = .ok (.series series)) : ∀ count ∈ series.counts, count = 0 := by
  cases interval? with
  | error e => cases hrun
  | ok interval =>
    change ((Answer.series <$> Counters.counts keys n interval r).run client.bare s).1 = _ at hrun
    rw [Program.run_map] at hrun
    cases hcounts : ((Counters.counts keys n interval r).run client.bare s).1 with
    | error e =>
      rw [hcounts] at hrun
      cases hrun
    | ok series =>
      rw [hcounts] at hrun
      cases hrun
      exact h.showsNothing_of_run_counts hclient hn hcounts

/--
No query shows anything of a counter of which the store holds nothing.
-/
theorem showsNothing (hclient : client.WorksOn data) {s : σ} (h : (data s).Cleared keys name)
    (r : Request) : ShowsNothing name r ((Counters.answer keys r).run client.bare s).1 := by
  -- one case for each answer that could show something
  unfold ShowsNothing
  split
  · next n total hanswer =>
    rintro rfl
    unfold Counters.answer at hanswer
    rw [Program.run_map] at hanswer
    cases hrun : ((Counters.total keys n).run client.bare s).1 with
    | error e =>
      rw [hrun] at hanswer
      cases hanswer
    | ok total =>
      rw [hrun] at hanswer
      cases hanswer
      rcases (Counters.run_total_eq_ok hclient hrun).2 with hzero | hvalue
      · exact hzero
      · have hmem := h.total
        rw [Std.ExtTreeMap.mem_iff_isSome_getElem?, hvalue] at hmem
        exact absurd rfl hmem
  · next names hanswer =>
    unfold Counters.answer at hanswer
    rw [Program.run_map] at hanswer
    cases hrun : ((Counters.list keys).run client.bare s).1 with
    | error e =>
      rw [hrun] at hanswer
      cases hanswer
    | ok names =>
      rw [hrun] at hanswer
      cases hanswer
      rw [Counters.run_list_eq_ok hclient hrun, List.mem_mergeSort, Std.ExtTreeSet.mem_toList]
      exact h.unnamed
  · next n start finish r series hanswer =>
    exact fun hn => h.showsNothing_of_query hclient hn _ r hanswer
  · next n count finish r series hanswer =>
    exact fun hn => h.showsNothing_of_query hclient hn _ r hanswer
  · trivial

end Data.Cleared

namespace Counters

theorem source_counts_ne_store (d : Data) (n : String) (interval : Interval) (r : Resolution)
    (failure : Failure) : (Data.source keys d).counts n interval r ≠ .error (.store failure) := by
  intro h
  rw [Data.source, Source.counts_oneByOne] at h
  cases hb : r.bucket? with
  | none =>
    simp only [hb] at h
    cases h
  | some b =>
    simp only [hb] at h
    cases hstarts : b.startsOf interval with
    | error e =>
      obtain ⟨origin, rfl⟩ := Bucket.startsFrom_eq_error hstarts
      rw [hstarts] at h
      cases h
    | ok starts =>
      rw [hstarts] at h
      change b.cutRows interval _ = _ at h
      unfold Bucket.cutRows at h
      split at h
      · cases h
      · cases h

theorem query_ne_store (d : Data) (n : String) {interval? : Except CounterError Interval}
    (hinterval : ∀ failure, interval? ≠ .error (.store failure)) (r : Resolution)
    (failure : Failure) :
    ((do
      let interval ← liftExcept interval?
      Answer.series <$> counts keys n interval r : Program Answer).run Data.send.bare d).1
        ≠ .error (.store failure) := by
  intro h
  cases interval? with
  | error e =>
    cases h
    exact hinterval failure rfl
  | ok interval =>
    change ((Answer.series <$> counts keys n interval r).run Data.send.bare d).1 = _ at h
    rw [Program.run_map, run_counts_send] at h
    unfold checkName at h
    by_cases hn : n = ""
    · rw [if_pos hn] at h
      cases h
    · rw [if_neg hn] at h
      unfold Source.resolve at h
      cases hcounts : (Data.source keys d).counts n interval r with
      | error e =>
        simp only [hcounts] at h
        cases h
        exact source_counts_ne_store d n interval r failure hcounts
      | ok counts =>
        simp only [hcounts] at h
        cases h

end Counters

theorem Interval.of_ne_store (start finish : Instant) (failure : Failure) :
    Interval.of start finish ≠ .error (.store failure) := by
  unfold Interval.of
  split
  · simp
  · simp

theorem Interval.ending_ne_store (r : Resolution) (n : Nat) (finish : Instant) (failure : Failure) :
    Interval.ending r n finish ≠ .error (.store failure) := by
  unfold Interval.ending
  split
  · simp
  · unfold Resolution.minus stepFrom
    cases r.shift? finish _ with
    | some start => exact Interval.of_ne_store start finish failure
    | none => simp

theorem Data.Cleared.answers {bench : Bench} (h : bench.data.Cleared keys name) (hname : name ≠ "")
    (hfailures : bench.failures = []) (r : Request) :
    Answers name r ((Counters.answer keys r).run Bench.send.bare bench).1 := by
  rw [(Bench.run_of_failures_eq_nil _ hfailures).1]
  cases r with
  | increment n amount instant => trivial
  | reset n => trivial
  | list => exact ⟨_, rfl⟩
  | total n =>
    rintro rfl
    unfold Counters.answer
    rw [Program.run_map, Counters.run_total_send]
    unfold checkName
    rw [if_neg hname, Std.ExtTreeMap.getD_eq_fallback h.total]
    rfl
  | counts n start finish r =>
    exact fun _ => Counters.query_ne_store _ n (Interval.of_ne_store start finish) r
  | countsEnding n count finish r =>
    exact fun _ => Counters.query_ne_store _ n (Interval.ending_ne_store r count finish) r

end Rollup.Store
