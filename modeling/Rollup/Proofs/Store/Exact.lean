import Rollup.Proofs.Store.Booked
import Rollup.Proofs.Store.Increment
import Rollup.Proofs.Store.Isolation

/-!
This module contains the exactness of what a store remembers of its counters, as long as no command
is made to fail. The main statement is `bookkeeping_exact`: the buckets that are recorded are those
that exist, and the names are those of the counters that have a total, even after increments that
ended half way for want of room.
-/

namespace Rollup.Store

open Rollup.Time

theorem Counters.data_run_query (keys : KeySpace) (d : Data) (name : String)
    (interval? : Except CounterError Interval) (r : Resolution) :
    ((do
      let interval ← liftExcept interval?
      Answer.series <$> counts keys name interval r : Program Answer).run Data.send.bare d).2 = d := by
  cases interval? with
  | error e => rfl
  | ok interval =>
    change ((Answer.series <$> counts keys name interval r).run Data.send.bare d).2 = d
    rw [Program.run_map, run_counts_send]

/--
The buckets that exist are recorded, and only these, and the counters with a total are named.
-/
structure Data.Exact (keys : KeySpace) (d : Data) : Prop where
  recorded : ∀ n key, key ∈ d.members (keys.bookkeeping n) ↔ keys.IsBucketOf n key ∧ key ∈ d.hashes
  named : ∀ n, n ∈ d.members keys.names ↔ keys.total n ∈ d.strings

namespace Data.Exact

variable {keys : KeySpace} {name key : String} {amount : Count} {d d' : Data}

theorem empty (keys : KeySpace) : Exact keys .empty where
  recorded n key := by simp [Data.members, Data.empty]
  named n := by simp [Data.members, Data.empty]

theorem booked (h : d.Exact keys) : d.Booked keys where
  tidy n key hmember := ((h.recorded n key).1 hmember).1
  recorded n key hkey hhash := (h.recorded n key).2 ⟨hkey, hhash⟩

theorem hincrby {field : String} {value : Count} (h : d.Exact keys) (hhash : key ∈ d.hashes)
    (hincr : d.hincrby key field amount = .ok (value, d')) : d'.Exact keys := by
  obtain ⟨-, rfl⟩ := hincrby_eq_ok hincr
  constructor
  · intro n k
    refine (h.recorded n k).trans (and_congr_right fun _ => ?_)
    rw [Std.ExtTreeMap.mem_insert, Std.LawfulEqCmp.compare_eq_iff_eq]
    constructor
    · exact Or.inr
    · rintro (rfl | hk)
      · exact hhash
      · exact hk
  · exact h.named

theorem hincrby_sadd {field : String} {value : Count} (h : d.Exact keys)
    (hkey : keys.IsBucketOf name key)
    (hincr : d.hincrby key field amount = .ok (value, d')) :
    (d'.sadd (keys.bookkeeping name) key).Exact keys := by
  obtain ⟨-, rfl⟩ := hincrby_eq_ok hincr
  constructor
  · intro n k
    rw [mem_members_sadd, KeySpace.bookkeeping_inj, hashes_sadd, Std.ExtTreeMap.mem_insert,
      Std.LawfulEqCmp.compare_eq_iff_eq]
    refine (or_congr_right (h.recorded n k)).trans ?_
    constructor
    · rintro (⟨rfl, rfl⟩ | ⟨hk, hhash⟩)
      · exact ⟨hkey, Or.inl rfl⟩
      · exact ⟨hk, Or.inr hhash⟩
    · rintro ⟨hk, rfl | hhash⟩
      · exact Or.inl ⟨hk.eq hkey, rfl⟩
      · exact Or.inr ⟨hk, hhash⟩
  · intro n
    rw [mem_members_sadd]
    simp only [KeySpace.names_ne_bookkeeping, false_and, false_or]
    exact h.named n

/--
A reply other than the amount tells that the bucket was there before, so it is recorded already.
-/
theorem run_countIn (h : d.Exact keys) (hkey : keys.IsBucketOf name key) (field : String)
    (amount : Count) :
    ((Counters.countIn (keys.bookkeeping name) key field amount).run send.bare d).2.Exact keys := by
  rw [Counters.run_countIn]
  cases hincr : d.hincrby key field amount with
  | error failure => exact h
  | ok result =>
    obtain ⟨value, after⟩ := result
    simp only
    split
    · exact h.hincrby_sadd hkey hincr
    · next hvalue =>
      apply h.hincrby _ hincr
      apply mem_hashes_of_count_ne_zero field
      intro hzero
      have hval := val_hincrby hincr
      rw [hzero, Int.zero_add] at hval
      exact hvalue (Count.ext hval)

theorem run_countAll (h : d.Exact keys) {levels : List (String × String)}
    (hlevels : ∀ level ∈ levels, keys.IsBucketOf name level.1) (amount : Count) :
    ((Counters.increment.countAll keys name amount levels).run send.bare d).2.Exact keys := by
  induction levels generalizing d with
  | nil => exact h
  | cons level levels ih =>
    obtain ⟨key, field⟩ := level
    have hfirst := h.run_countIn (hlevels (key, field) List.mem_cons_self) field amount
    change (((Counters.countIn (keys.bookkeeping name) key field amount).bind fun _ =>
      Counters.increment.countAll keys name amount levels).run send.bare d).2.Exact keys
    rw [Program.run_bind]
    generalize (Counters.countIn (keys.bookkeeping name) key field amount).run send.bare d = out
      at hfirst ⊢
    obtain ⟨result, between⟩ := out
    cases result with
    | error e => exact hfirst
    | ok _ => exact ih hfirst fun level hlevel => hlevels level (List.mem_cons_of_mem _ hlevel)

/--
A counter is named before it has a total. Only a total that is there already has no room.
-/
theorem sadd_incrBy (h : d.Exact keys) (name : String) (amount : Count) :
    (match (d.sadd keys.names name).incrBy (keys.total name) amount with
      | .ok (_, after) => after
      | .error _ => d.sadd keys.names name).Exact keys := by
  have hrecorded : ∀ n k, k ∈ (d.sadd keys.names name).members (keys.bookkeeping n)
      ↔ keys.IsBucketOf n k ∧ k ∈ d.hashes := by
    intro n k
    rw [mem_members_sadd]
    simp only [KeySpace.bookkeeping_ne_names, false_and, false_or]
    exact h.recorded n k
  cases hincr : (d.sadd keys.names name).incrBy (keys.total name) amount with
  | ok result =>
    obtain ⟨total, after⟩ := result
    obtain ⟨-, rfl⟩ := incrBy_eq_ok hincr
    refine ⟨hrecorded, ?_⟩
    intro n
    rw [Std.ExtTreeMap.mem_insert, Std.LawfulEqCmp.compare_eq_iff_eq, KeySpace.total_inj]
    refine mem_members_sadd.trans (or_congr ?_ (h.named n))
    simp [eq_comm]
  | error failure =>
    refine ⟨hrecorded, ?_⟩
    have htotal : keys.total name ∈ d.strings := by
      apply Classical.byContradiction
      intro hnone
      unfold incrBy at hincr
      rw [strings_sadd, Std.ExtTreeMap.getD_eq_fallback hnone, Count.zero_add?] at hincr
      cases hincr
    intro n
    rw [mem_members_sadd, h.named, strings_sadd]
    constructor
    · rintro (⟨-, rfl⟩ | hn)
      · exact htotal
      · exact hn
    · exact Or.inr

theorem run_increment (h : d.Exact keys) (name : String) (amount : Count) (instant : Instant) :
    ((Counters.increment keys name amount instant).run send.bare d).2.Exact keys := by
  by_cases hname : name = ""
  · subst hname
    exact h
  · have hlevels : ∀ level ∈ keys.levels name instant, keys.IsBucketOf name level.1 :=
      fun _ => KeySpace.isBucketOf_of_mem_levels
    have hcounted := h.run_countAll hlevels amount
    rw [Counters.run_increment_on send.bare hname]
    generalize (Counters.increment.countAll keys name amount (keys.levels name instant)).run
      send.bare d = out at hcounted ⊢
    obtain ⟨result, between⟩ := out
    cases result with
    | error e => exact hcounted
    | ok _ =>
      have hsummed := hcounted.sadd_incrBy name amount
      simp only [Client.bare, send]
      cases hincr : (between.sadd keys.names name).incrBy (keys.total name) amount with
      | ok result =>
        rw [hincr] at hsummed
        exact hsummed
      | error failure =>
        rw [hincr] at hsummed
        exact hsummed

theorem total_mem_reset_iff (h : d.Exact keys) (n : String) :
    keys.total n ∈ (d.reset keys name).strings ↔ n ≠ name ∧ keys.total n ∈ d.strings := by
  have hother : keys.total n ∉ d.members (keys.bookkeeping name) := by
    intro hmember
    obtain ⟨level, a, hkey⟩ := ((h.recorded name _).1 hmember).1
    exact KeySpace.total_ne_bucket hkey
  rw [mem_strings_reset_iff, ne_eq, KeySpace.total_inj]
  simp only [hother, not_false_eq_true, true_and]
  exact and_comm

theorem mem_bookkeeping_reset_iff (h : d.Exact keys) (n : String) :
    key ∈ (d.reset keys name).members (keys.bookkeeping n)
      ↔ n ≠ name ∧ key ∈ d.members (keys.bookkeeping n) := by
  have hother : keys.bookkeeping n ∉ d.members (keys.bookkeeping name) := by
    intro hmember
    obtain ⟨level, a, hkey⟩ := ((h.recorded name _).1 hmember).1
    exact KeySpace.bookkeeping_ne_bucket hkey
  unfold Data.reset
  simp only [mem_members_srem, members_foldl_del, Std.ExtTreeSet.mem_toList, del_eq_foldl]
  by_cases hn : n = name
  · subst hn
    simp [hother]
  · simp [hn, hother]

theorem mem_hashes_reset_iff (h : d.Exact keys) {n : String} (hkey : keys.IsBucketOf n key) :
    key ∈ (d.reset keys name).hashes ↔ n ≠ name ∧ key ∈ d.hashes := by
  rw [mem_hashes_reset hkey, h.recorded]
  constructor
  · rintro ⟨hhash, hnot⟩
    refine ⟨?_, hhash⟩
    rintro rfl
    exact hnot ⟨hkey, hhash⟩
  · rintro ⟨hn, hhash⟩
    exact ⟨hhash, fun hother => hn (hkey.eq hother.1)⟩

/--
A reset takes away the buckets of one counter, and all of them leave its bookkeeping set.
-/
theorem reset (h : d.Exact keys) (name : String) : (d.reset keys name).Exact keys where
  recorded n key := by
    rw [h.mem_bookkeeping_reset_iff, h.recorded, and_left_comm]
    exact and_congr_right fun hkey => (h.mem_hashes_reset_iff hkey).symm
  named n := by rw [h.booked.mem_names_reset, h.total_mem_reset_iff, h.named]

theorem answer (h : d.Exact keys) (r : Request) :
    ((Counters.answer keys r).run send.bare d).2.Exact keys := by
  cases r with
  | increment name amount instant =>
    unfold Counters.answer
    rw [Program.run_map]
    exact h.run_increment name amount instant
  | reset name =>
    unfold Counters.answer
    rw [Program.run_map]
    by_cases hname : name = ""
    · subst hname
      exact h
    · rw [Counters.run_reset_send hname]
      exact h.reset name
  | list => exact h
  | total name =>
    unfold Counters.answer
    rw [Program.run_map, Counters.run_total_send]
    exact h
  | counts name start finish r =>
    exact (Counters.data_run_query keys d name (Interval.of start finish) r).symm ▸ h
  | countsEnding name n finish r =>
    exact (Counters.data_run_query keys d name (Interval.ending r n finish) r).symm ▸ h

theorem after (h : d.Exact keys) (requests : List Request) : (d.after keys requests).Exact keys := by
  induction requests generalizing d with
  | nil => exact h
  | cons r requests ih => exact ih (h.answer r)

end Data.Exact

/--
Strings are totals, hashes are buckets, and sets are for the bookkeeping of a counter or the names.
-/
structure Data.Owned (keys : KeySpace) (d : Data) : Prop where
  strings : ∀ key ∈ d.strings, ∃ n, key = keys.total n
  hashes : ∀ key ∈ d.hashes, ∃ n, keys.IsBucketOf n key
  sets : ∀ key ∈ d.sets, key = keys.names ∨ ∃ n, key = keys.bookkeeping n

/--
A command that makes nothing but what belongs to a counter or to the names.
-/
def Command.Fits (keys : KeySpace) : Command → Prop
  | .hincrby key _ _ => ∃ n, keys.IsBucketOf n key
  | .incrBy key _ => ∃ n, key = keys.total n
  | .sadd key _ => key = keys.names ∨ ∃ n, key = keys.bookkeeping n
  | _ => True

theorem Counters.fits_of_maySend {keys : KeySpace} {r : Request} {c : Command}
    (h : MaySend keys r c) : c.Fits keys := by
  cases r with
  | increment name amount instant =>
    rcases h with ⟨level, hlevel, rfl | rfl⟩ | rfl | rfl
    · exact ⟨name, KeySpace.isBucketOf_of_mem_levels hlevel⟩
    · exact Or.inr ⟨name, rfl⟩
    · exact Or.inl rfl
    · exact ⟨name, rfl⟩
  | reset name => rcases h with rfl | rfl | ⟨_, rfl | rfl⟩ | rfl <;> trivial
  | list =>
    rw [show c = _ from h]
    trivial
  | total name =>
    rw [show c = _ from h]
    trivial
  | counts name start finish r =>
    rw [show c = _ from h]
    trivial
  | countsEnding name n finish r =>
    rw [show c = _ from h]
    trivial

namespace Data.Owned

variable {keys : KeySpace} {name key : String} {d : Data} {c : Command}

theorem empty (keys : KeySpace) : Owned keys .empty := by
  constructor
  · exact fun key hkey => absurd hkey Std.ExtTreeMap.not_mem_empty
  · exact fun key hkey => absurd hkey Std.ExtTreeMap.not_mem_empty
  · exact fun key hkey => absurd hkey Std.ExtTreeMap.not_mem_empty

theorem send (h : d.Owned keys) (hc : c.Fits keys) : (send c d).2.Owned keys := by
  have hchanged := changed_send c d
  constructor
  · intro key hkey
    rcases hchanged.mem_strings hkey with hbefore | ⟨amount, rfl⟩
    · exact h.strings key hbefore
    · exact hc
  · intro key hkey
    rcases (mem_hashes_send c d key).1 hkey with hcounts | ⟨hbefore, -⟩
    · obtain ⟨field, amount, heq⟩ := hcounts.command_eq
      obtain rfl : c = .hincrby key field amount := heq
      exact hc
    · exact h.hashes key hbefore
  · intro key hkey
    rcases hchanged.mem_sets hkey with hbefore | ⟨m, rfl⟩
    · exact h.sets key hbefore
    · exact hc

theorem run {α : Type} {p : Program α} (hp : p.Sends (Command.Fits keys)) (h : d.Owned keys) :
    (p.run Data.send.bare d).2.Owned keys := by
  induction p generalizing d with
  | done result => exact h
  | call c rest ih => exact ih _ (hp.2 _) (h.send hp.1)
  | readAll places rest ih =>
    apply ih _ (hp _)
    exact Client.readInTurn_preserves (fun place d hd => hd.send (by trivial)) places h
  | report event rest ih => exact ih hp h

theorem after (h : d.Owned keys) (requests : List Request) : (d.after keys requests).Owned keys := by
  induction requests generalizing d with
  | nil => exact h
  | cons r requests ih =>
    apply ih
    exact h.run ((Counters.sends_answer r).mono fun c => Counters.fits_of_maySend)

/--
A reset leaves no key of the counter.
-/
theorem not_mem_keys_reset (h : d.Owned keys) (hexact : d.Exact keys)
    (hkey : keys.IsKeyOf name key) : key ∉ (d.reset keys name).keys := by
  intro hmem
  simp only [Data.keys, List.mem_mergeSort, List.mem_append, Std.ExtTreeMap.mem_keys] at hmem
  rcases hmem with (hstring | hhash) | hset
  · obtain ⟨n, rfl⟩ := h.strings key ((mem_strings_reset_iff key).1 hstring).1
    exact ((hexact.total_mem_reset_iff n).1 hstring).1 (hkey.eq (Or.inl rfl)).symm
  · obtain ⟨n, hn⟩ := h.hashes key ((mem_hashes_reset_iff key).1 hhash).1
    exact ((hexact.mem_hashes_reset_iff hn).1 hhash).1 (hkey.eq (Or.inr (Or.inr hn))).symm
  · rcases h.sets key (mem_sets_of_mem_reset hset) with rfl | ⟨n, rfl⟩
    · exact KeySpace.not_isKeyOf_names hkey
    · obtain rfl : name = n := hkey.eq (Or.inr (Or.inl rfl))
      exact bookkeeping_not_mem_reset hset

end Data.Owned

namespace Bench

theorem data_after_requests (keys : KeySpace) {bench : Bench} (h : bench.failures = [])
    (requests : List Request) :
    (bench.after keys (requests.map .request)).data = bench.data.after keys requests
      ∧ (bench.after keys (requests.map .request)).failures = [] := by
  induction requests generalizing bench with
  | nil => exact ⟨rfl, h⟩
  | cons r requests ih =>
    obtain ⟨-, hdata, hfailures⟩ := run_of_failures_eq_nil (Counters.answer keys r) h
    rw [← answer_eq] at hdata hfailures
    obtain ⟨hlater, hnone⟩ := ih hfailures
    refine ⟨hlater.trans ?_, hnone⟩
    rw [hdata]
    rfl

/--
As long as no command is made to fail, the bookkeeping is exact after every request, refused ones
included: the set of a counter has the keys of those of its buckets that exist, and the names are
those of the counters that have a total. So a reset leaves no key of its counter.
-/
theorem bookkeeping_exact (keys : KeySpace) (requests : List Request) :
    let bench := empty.after keys (requests.map .request)
    (∀ n key, key ∈ bench.data.members (keys.bookkeeping n)
        ↔ keys.IsBucketOf n key ∧ key ∈ bench.data.hashes)
      ∧ (∀ n, n ∈ bench.data.members keys.names ↔ keys.total n ∈ bench.data.strings)
      ∧ ∀ name, name ≠ "" →
        (bench.answer keys (.reset name)).1 = .ok .done
          ∧ name ∉ (bench.answer keys (.reset name)).2.data.members keys.names
          ∧ ∀ key, keys.IsKeyOf name key →
            key ∉ (bench.answer keys (.reset name)).2.data.keys := by
  intro bench
  obtain ⟨hdata, hfailures⟩ :
      bench.data = Data.empty.after keys requests ∧ bench.failures = [] :=
    data_after_requests keys rfl requests
  have hexact : bench.data.Exact keys := hdata ▸ (Data.Exact.empty keys).after requests
  have howned : bench.data.Owned keys := hdata ▸ (Data.Owned.empty keys).after requests
  refine ⟨hexact.recorded, hexact.named, ?_⟩
  intro name hname
  obtain ⟨hresult, hafter, -⟩ := run_of_failures_eq_nil (Counters.answer keys (.reset name)) hfailures
  have hrun : (Counters.answer keys (.reset name)).run Data.send.bare bench.data
      = (.ok .done, bench.data.reset keys name) := by
    unfold Counters.answer
    rw [Program.run_map, Counters.run_reset_send hname]
    rfl
  rw [← answer_eq, hrun] at hresult hafter
  rw [hresult, hafter]
  exact ⟨rfl, Data.name_not_mem_reset, fun key hkey => howned.not_mem_keys_reset hexact hkey⟩

/--
An increment that is refused for the total has created its buckets before. A reset removes them, too.
-/
theorem bookkeeping_exact_after_refusal :
    let noon : Instant := ⟨⟨2024, 2, 29, by decide, by decide, by decide⟩, 43200, 0, by decide,
      by decide, by decide⟩
    let earlier : Instant := .midnight ⟨-1, 12, 31, by decide, by decide, by decide⟩
    let requests : List Request := [.increment "a" ⟨2 ^ 63 - 1, by decide, by decide⟩ noon,
      .increment "a" ⟨1, by decide, by decide⟩ earlier]
    "a" ≠ "" ∧ ∃ key, KeySpace.standard.IsBucketOf "a" key
      ∧ key ∈ (empty.after .standard (requests.map .request)).data.members
        (KeySpace.standard.bookkeeping "a")
      ∧ key ∉ ((empty.after .standard (requests.map .request)).answer .standard
        (.reset "a")).2.data.keys := by
  intro noon earlier requests
  have hname : "a" ≠ "" := by decide
  obtain ⟨hrecorded, -, hreset⟩ := bookkeeping_exact .standard requests
  obtain ⟨-, -, hgone⟩ := hreset "a" hname
  have hkey := KeySpace.isBucketOf_bucket .standard "a" .hour earlier
  refine ⟨hname, _, hkey, ?_, ?_⟩
  · rw [hrecorded]
    refine ⟨hkey, ?_⟩
    decide +kernel
  · apply hgone
    exact Or.inr (Or.inr hkey)

end Bench

end Rollup.Store
