import Rollup.Proofs.Series.Join

/-!
This module contains the fetches of range queries, from sources that may be slow and may fail. The
main statements are `resolve_fetches`, which tells the calls that a query makes and what comes of it
when one of them fails, and `resolve_out_of_range`, which tells when it makes no call at all.
-/

namespace Rollup

open Rollup.Session Rollup.Time

namespace Bucket

theorem exists_cutRows_eq_ok (b : Bucket) (interval : Interval) (rows : List (List Count)) :
    ∃ counts, b.cutRows interval rows = .ok counts := by
  have hle := interval.index_le b.unit
  have hunits := b.unit.unitsSpanned_eq interval.start interval.finish
  unfold cutRows
  generalize b.unit.unitsSpanned interval.start interval.finish = units at hunits
  lift units to Nat using by omega
  exact ⟨_, rfl⟩

end Bucket

namespace Source

variable {σ α β : Type}

theorem run_map (x : Fetching σ α) (f : α → β) (s : σ) :
    @Eq (Except CounterError β × σ) ((x >>= fun a => pure (f a)).run s)
      ((x.run s).1.map f, (x.run s).2) := by
  rw [run_bind]
  generalize x.run s = out
  obtain ⟨result, s'⟩ := out
  cases result <;> rfl

variable (source : Source (Fetching σ)) (name : String) (interval : Interval) {r : Resolution}
variable {b : Bucket} {e : CounterError}

theorem run_resolve (r : Resolution) (s : σ) :
    @Eq (Except CounterError Series × σ) ((source.resolve name interval r).run s)
      (let out := (source.counts name interval r).run s
       (out.1.map fun counts => ⟨name, interval, r, counts⟩, out.2)) :=
  run_map ..

theorem run_counts_of_bucket?_eq_none (hr : r.bucket? = none) (s : σ) :
    @Eq (Except CounterError (List Count) × σ) ((source.counts name interval r).run s)
      (let out := (source.yearCounts name).run s
       (out.1.map fun years => years.within interval, out.2)) := by
  unfold counts
  simp only [hr]
  exact run_map ..

theorem run_counts_of_startsOf_eq_error (hr : r.bucket? = some b)
    (h : b.startsOf interval = .error e) (s : σ) :
    (source.counts name interval r).run s = (.error e, s) := by
  unfold counts
  simp only [hr, h]
  rw [run_bind, run_lift]

theorem run_counts_of_startsOf_eq_ok (hr : r.bucket? = some b) {starts : List Instant}
    (h : b.startsOf interval = .ok starts) (s : σ) :
    @Eq (Except CounterError (List Count) × σ) ((source.counts name interval r).run s)
      (let out := (source.rows name b starts).run s
       (out.1.map fun rows => Row.cut rows (b.slot interval.start)
          (b.unit.unitsSpanned interval.start interval.finish).toNat, out.2)) := by
  unfold counts
  simp only [hr, h]
  rw [run_bind, run_lift]
  simp only
  rw [run_bind]
  generalize (source.rows name b starts).run s = out
  obtain ⟨result, s'⟩ := out
  cases result with
  | error e => rfl
  | ok rows =>
    obtain ⟨counts, hcounts⟩ := b.exists_cutRows_eq_ok interval rows
    simp only
    rw [run_lift, hcounts, Bucket.cutRows_eq_ok hcounts]
    rfl

end Source

theorem map_fetch_rowCalls (name : String) (b : Bucket) {starts : List Instant}
    {slots : List Slot} (h : slots.length ≤ starts.length) :
    (rowCalls name b starts slots).map Call.fetch
      = (starts.take slots.length).map (.row name b) := by
  induction slots generalizing starts with
  | nil => simp [rowCalls]
  | cons slot slots ih =>
    cases starts with
    | nil => cases h
    | cons start starts => exact congrArg (_ :: ·) (ih (Nat.le_of_succ_le_succ h))

theorem map_failure?_rowCalls (name : String) (b : Bucket) {starts : List Instant}
    {slots : List Slot} (h : slots.length ≤ starts.length) :
    (rowCalls name b starts slots).map Call.failure? = slots.map Slot.failure? := by
  induction slots generalizing starts with
  | nil => simp [rowCalls]
  | cons slot slots ih =>
    cases starts with
    | nil => cases h
    | cons start starts => exact congrArg (_ :: ·) (ih (Nat.le_of_succ_le_succ h))

/--
The kind of bucket that the queries of a resolution read, which spans the next coarser unit. Those
of years read no bucket.
-/
inductive Resolution.Reads : Resolution → Bucket → Prop where
  | minute : Reads .minute .hour
  | hour : Reads .hour .day
  | day : Reads .day .month
  | month : Reads .month .year

theorem Resolution.reads_iff {r : Resolution} {b : Bucket} : r.Reads b ↔ r.bucket? = some b := by
  constructor
  · rintro (_ | _ | _ | _) <;> rfl
  · intro h
    cases r <;> cases h
    all_goals constructor

/--
The fetches that a query needs: the rows of the buckets that its interval meets, or the counts of
all years.
-/
inductive Needed (name : String) (interval : Interval) : Resolution → List Fetch → Prop where
  | rows {r : Resolution} {b : Bucket} {starts : List Instant} (hr : r.Reads b)
    (hmeets : b.Meets interval starts) : Needed name interval r (starts.map (.row name b))
  | years : Needed name interval .year [.years name]

namespace Service

open Source

variable {σ : Type} (service : Service σ) (name : String) (interval : Interval) {r : Resolution}
variable {b : Bucket}

/--
What a query of a service gets, and the calls it makes for it.
-/
def resolve (r : Resolution) (s : σ) : Except CounterError Series × Traced σ :=
  (service.source.resolve name interval r).run ⟨s, []⟩

theorem run_yearCounts (s : σ) :
    let out := service.years name s
    @Eq (Except CounterError YearCounts × Traced σ) ((service.source.yearCounts name).run ⟨s, []⟩)
      (out.1, ⟨out.2, [⟨.years name, failureOf out.1⟩]⟩) := rfl

theorem run_rows (starts : List Instant) (s : σ) :
    let prompt := decide (starts.length ≤ Retry.Reading.promptLength)
    let out := service.join prompt name b starts s
    @Eq (Except CounterError (List (List Count)) × Traced σ)
      ((service.source.rows name b starts).run ⟨s, []⟩)
      (Slot.outcome prompt out.1, ⟨out.2, rowCalls name b starts out.1⟩) := rfl

theorem resolve_of_startsOf_eq_error (hr : r.bucket? = some b) {e : CounterError}
    (h : b.startsOf interval = .error e) (s : σ) :
    service.resolve name interval r s = (.error e, ⟨s, []⟩) := by
  unfold resolve
  rw [run_resolve, run_counts_of_startsOf_eq_error _ name interval hr h]
  rfl

section

variable (row : String → Bucket → Instant → Fetching σ (List Count))
variable (years : String → Fetching σ YearCounts)

/--
The service that answers each call at once, as a source does that is asked for one row after the
other.
-/
def oneByOne : Service σ where
  row name b start s :=
    let (result, s) := (row name b start).run s
    (some result, s)
  -- no call waits
  later _ s := ((0, .ok []), s)
  years name s := (years name).run s

theorem answersAtOnce_oneByOne : (oneByOne row years).AnswersAtOnce :=
  fun _ _ _ _ => rfl

theorem ask_oneByOne (prompt : Bool) (b : Bucket) (starts : List Instant) {slots : List Slot}
    (hslots : ∀ slot ∈ slots, slot.HasRow) (s : σ) :
    let out := (oneByOne row years).ask prompt name b starts slots s
    let expected : Except CounterError (List (List Count)) × σ := (starts.mapM (row name b)).run s
    Slot.outcome prompt out.1 = expected.1.map (slots.filterMap Slot.row? ++ ·)
      ∧ out.2 = expected.2 := by
  induction starts generalizing slots s with
  | nil =>
    refine ⟨?_, rfl⟩
    change Slot.outcome prompt slots = .ok (_ ++ [])
    rw [Slot.outcome, Slot.ending?_of_hasRow prompt hslots, List.append_nil]
  | cons start starts ih =>
    rw [List.mapM_cons, run_bind]
    unfold ask oneByOne
    simp only
    generalize (row name b start).run s = out
    obtain ⟨result, s'⟩ := out
    simp only
    rw [Slot.ending?_append prompt hslots]
    cases result with
    | error e =>
      refine ⟨?_, rfl⟩
      change Slot.outcome prompt (slots ++ _) = .error e
      rw [Slot.outcome, Slot.ending?_append prompt hslots]
      rfl
    | ok counts =>
      simp only
      rw [run_map]
      obtain ⟨hresult, hstate⟩ := ih (Slot.hasRow_append_singleton hslots counts) s'
      refine ⟨hresult.trans ?_, hstate⟩
      rw [List.filterMap_append]
      generalize (starts.mapM (row name b)).run s' = expected
      obtain ⟨result, s''⟩ := expected
      cases result with
      | error e => rfl
      | ok rows => simp [Except.map, Slot.row?]

/--
Asking for one row after the other is joining calls that are answered at once.
-/
theorem resolve_oneByOne (r : Resolution) (s : σ) :
    let out := (oneByOne row years).resolve name interval r s
    let expected : Except CounterError Series × σ :=
      ((Source.oneByOne row years).resolve name interval r).run s
    out.1 = expected.1 ∧ out.2.state = expected.2 := by
  unfold resolve
  rw [run_resolve, run_resolve]
  cases hr : r.bucket? with
  | none =>
    rw [run_counts_of_bucket?_eq_none _ name interval hr,
      run_counts_of_bucket?_eq_none _ name interval hr]
    exact ⟨rfl, rfl⟩
  | some b =>
    cases hstarts : b.startsOf interval with
    | error e =>
      rw [run_counts_of_startsOf_eq_error _ name interval hr hstarts,
        run_counts_of_startsOf_eq_error _ name interval hr hstarts]
      exact ⟨rfl, rfl⟩
    | ok starts =>
      rw [run_counts_of_startsOf_eq_ok _ name interval hr hstarts,
        run_counts_of_startsOf_eq_ok _ name interval hr hstarts, run_rows]
      dsimp only
      generalize decide (starts.length ≤ Retry.Reading.promptLength) = prompt
      obtain ⟨hresult, hstate⟩ :=
        ask_oneByOne name row years prompt b starts (List.forall_mem_nil _) s
      rw [(answersAtOnce_oneByOne row years).join_eq_ask, hresult]
      refine ⟨?_, hstate⟩
      change _ = Except.map _ (Except.map _ ((starts.mapM (row name b)).run s).1)
      generalize (starts.mapM (row name b)).run s = expected
      obtain ⟨result, s'⟩ := expected
      cases result <;> rfl

end

/--
What comes of a query that needs some fetches, told by the calls it has made: they are the fetches
in their order, all of them unless one fails, and then the first failure is the answer.
-/
structure Fetched (needed : List Fetch) (out : Except CounterError Series × Traced σ) : Prop where
  calls : out.2.calls.map Call.fetch <+: needed
  complete : (∀ call ∈ out.2.calls, call.failure? = none) →
    out.2.calls.map Call.fetch = needed ∧ ∃ series, out.1 = .ok series
  fails : ∀ k e, FailsFirst (out.2.calls.map Call.failure?) k e →
    out.1 = .error e ∧ (service.AnswersAtOnce → out.2.calls.length = k + 1)

theorem fetched_years (hr : r.bucket? = none) (s : σ) :
    service.Fetched [.years name] (service.resolve name interval r s) := by
  unfold resolve
  rw [run_resolve, run_counts_of_bucket?_eq_none _ name interval hr, run_yearCounts]
  generalize service.years name s = out
  obtain ⟨result, s'⟩ := out
  cases result with
  | ok years =>
    refine ⟨List.prefix_rfl, fun _ => ⟨rfl, _, rfl⟩, ?_⟩
    intro k e hfails
    obtain ⟨j, -, hj⟩ := FailsFirst.of_cons_none hfails
    cases hj.1
  | error e' =>
    refine ⟨List.prefix_rfl, ?_, ?_⟩
    · intro hnone
      cases hnone _ List.mem_cons_self
    · intro k e hfails
      obtain ⟨rfl, rfl⟩ := FailsFirst.of_cons_some hfails
      exact ⟨rfl, fun _ => rfl⟩

theorem fetched_rows (hr : r.bucket? = some b) {starts : List Instant}
    (h : b.startsOf interval = .ok starts) (s : σ) :
    service.Fetched (starts.map (.row name b)) (service.resolve name interval r s) := by
  unfold resolve
  rw [run_resolve, run_counts_of_startsOf_eq_ok _ name interval hr h, run_rows]
  dsimp only
  generalize decide (starts.length ≤ Retry.Reading.promptLength) = prompt
  have hle := (service.join_ends prompt name b starts s).1
  obtain ⟨hcomplete, hfails⟩ := service.outcome_join prompt name b starts s
  have hatOnce : service.AnswersAtOnce → ∀ k e, FailsFirst _ k e → _ = k + 1 :=
    fun h k e => h.length_join prompt name b starts s
  generalize service.join prompt name b starts s = out at hle hcomplete hfails hatOnce ⊢
  obtain ⟨slots, s'⟩ := out
  have hfetches := map_fetch_rowCalls name b hle
  have hfailures := map_failure?_rowCalls name b hle
  constructor
  case calls =>
    rw [hfetches, List.map_take]
    exact List.take_prefix _ _
  case complete =>
    intro hnone
    have hslots : ∀ slot ∈ slots, slot.failure? = none := by
      intro slot hslot
      have hmem : slot.failure? ∈ (rowCalls name b starts slots).map Call.failure? := by
        rw [hfailures]
        exact List.mem_map_of_mem hslot
      obtain ⟨call, hcall, hsame⟩ := List.mem_map.1 hmem
      rw [← hsame, hnone call hcall]
    obtain ⟨hlength, rows, hrows⟩ := hcomplete hslots
    rw [hfetches, hrows]
    refine ⟨?_, _, rfl⟩
    rw [hlength, List.take_length]
  case fails =>
    intro k e hfirst
    rw [hfailures] at hfirst
    rw [hfails k e hfirst]
    refine ⟨rfl, ?_⟩
    intro h
    have hlength := congrArg List.length hfailures
    rw [List.length_map, List.length_map] at hlength
    exact hlength.trans (hatOnce h k e hfirst)

/--
A query that fails although none of its calls does needs a step past the last bucket.
-/
theorem exists_isLast_of_eq_error {s : σ} {e : CounterError}
    (hfails : (service.resolve name interval r s).1 = .error e)
    (hnone : ∀ call ∈ (service.resolve name interval r s).2.calls, call.failure? = none) :
    ∃ b, r.Reads b ∧ b.IsLast interval.finish := by
  cases hb : r.bucket? with
  | none =>
    obtain ⟨-, series, hok⟩ := (service.fetched_years name interval hb s).complete hnone
    cases hfails.symm.trans hok
  | some b =>
    cases hstarts : b.startsOf interval with
    | error e => exact ⟨b, Resolution.reads_iff.2 hb, (Bucket.startsOf_eq_error_iff.1 hstarts).1⟩
    | ok starts =>
      obtain ⟨-, series, hok⟩ := (service.fetched_rows name interval hb hstarts s).complete hnone
      cases hfails.symm.trans hok

/--
A query makes the calls it needs, in their order and each of them once, unless one of them fails.
The first failure is then its answer, and where calls are answered at once, no other call is made
after it.
-/
theorem resolve_fetches (service : Service σ) (name : String) (interval : Interval) (r : Resolution)
    (s : σ) (hrange : ∀ b, r.Reads b → ¬b.IsLast interval.finish) :
    ∃ needed, Needed name interval r needed
      ∧ service.Fetched needed (service.resolve name interval r s) := by
  cases hb : r.bucket? with
  | none =>
    obtain rfl := Resolution.eq_year_of_bucket? hb
    exact ⟨_, .years, service.fetched_years name interval hb s⟩
  | some b =>
    have hr : r.Reads b := Resolution.reads_iff.2 hb
    cases hstarts : b.startsOf interval with
    | error e => exact absurd (Bucket.startsOf_eq_error_iff.1 hstarts).1 (hrange b hr)
    | ok starts =>
      exact ⟨_, .rows hr (Bucket.meets_startsOf hstarts),
        service.fetched_rows name interval hb hstarts s⟩

/--
The first of three hours is still being read when reading the second one fails.
-/
theorem resolve_fetches_until_failure :
    let date : Date := ⟨2024, 2, 29, by decide, by decide, by decide⟩
    let interval : Interval := ⟨⟨date, 36000, 0, by decide, by decide, by decide⟩,
      ⟨date, 43200, 0, by decide, by decide, by decide⟩, by decide⟩
    let service : Service Nat :=
      ⟨fun _ _ _ n => (if n = 0 then none else some (.error (.store .timeout)), n + 1),
        fun _ n => ((0, .ok []), n), fun _ n => (.ok ∅, n)⟩
    (∀ b, Resolution.minute.Reads b → ¬b.IsLast interval.finish)
      ∧ (service.resolve "a" interval .minute 0).2.calls.map Call.failure?
        = [none, some (.store .timeout)]
      ∧ (service.resolve "a" interval .minute 0).1 = .error (.store .timeout) := by
  intro date interval service
  have hrange : ∀ b, Resolution.minute.Reads b → ¬b.IsLast interval.finish := by
    rintro _ ⟨⟩
    rw [Bucket.isLast_iff]
    decide +kernel
  have hfailures : (service.resolve "a" interval .minute 0).2.calls.map Call.failure?
      = [none, some (.store .timeout)] := by
    decide +kernel
  obtain ⟨_, -, hfetched⟩ := service.resolve_fetches "a" interval .minute 0 hrange
  refine ⟨hrange, hfailures, (hfetched.fails 1 (.store .timeout) ?_).1⟩
  rw [hfailures]
  refine ⟨rfl, ?_⟩
  intro j hj
  obtain rfl : j = 0 := by omega
  rfl

/--
A query fails by its own arithmetic exactly if it is not one of years and its interval ends in the
last bucket of the kind it reads. It then tells the start of that bucket and has made no call. It
never fails when it counts its units.
-/
theorem resolve_out_of_range (service : Service σ) (name : String) (interval : Interval)
    (r : Resolution) (s : σ) :
    let out := service.resolve name interval r s
    ((∃ origin, out.1 = .error (.outOfRange origin) ∧ ∀ call ∈ out.2.calls, call.failure? = none)
        ↔ r ≠ .year ∧ ∃ b, r.Reads b ∧ b.IsLast interval.finish)
      ∧ (∀ b, r.Reads b → b.IsLast interval.finish →
        out = (.error (.outOfRange (b.floor interval.finish)), ⟨s, []⟩))
      ∧ (∀ b : Bucket, b.IsLast interval.finish
        ↔ b.floor interval.finish = b.floor Instant.latest)
      ∧ ∀ (b : Bucket) rows, ∃ counts, b.cutRows interval rows = .ok counts := by
  intro out
  have hlast : ∀ b, r.Reads b → b.IsLast interval.finish →
      out = (.error (.outOfRange (b.floor interval.finish)), ⟨s, []⟩) := by
    intro b hr hlast
    exact service.resolve_of_startsOf_eq_error name interval (Resolution.reads_iff.1 hr)
      (Bucket.startsOf_eq_error_iff.2 ⟨hlast, rfl⟩) s
  refine ⟨⟨?_, ?_⟩, hlast, fun _ => Bucket.isLast_iff, fun b => b.exists_cutRows_eq_ok interval⟩
  · rintro ⟨origin, hfails, hnone⟩
    obtain ⟨b, hr, hend⟩ := service.exists_isLast_of_eq_error name interval hfails hnone
    refine ⟨?_, b, hr, hend⟩
    rintro rfl
    cases hr
  · rintro ⟨-, b, hr, hend⟩
    rw [hlast b hr hend]
    exact ⟨_, rfl, by simp⟩

end Service
end Rollup
