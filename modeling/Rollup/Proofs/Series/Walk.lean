import Rollup.Proofs.Series.Stitch

/-!
This module contains the buckets that an interval meets, found by a cursor that steps from one
bucket start to the next until it has passed the end of the interval. The main statements are
`meets_startsOf`, which tells those buckets without the cursor, and `startsOf_eq_error_iff`: since
the cursor has to get past the end, it fails exactly if there is no bucket after the last one.
-/

namespace Rollup

open Rollup.Time

namespace Time.Instant

/--
The latest representable instant, in a leap second.
-/
def latest : Instant :=
  ⟨⟨262142, 12, 31, by decide, by decide, by decide⟩, 86399, 1999999999, by decide, by decide,
    by decide⟩

theorem le_latest (a : Instant) : a ≤ latest := by
  have hnanos := a.nanos_lt
  have hseconds := a.seconds_lt
  have hlatest : latest.seconds = daysBeforeYear (maxYear + 1) * 86400 - 1 := by decide
  rw [le_def, rank, rank, hlatest]
  unfold nanosPerSecond at *
  change _ ≤ _ + ((1999999999 : Nat) : Int)
  omega

variable {a : Instant} {l : List Instant}

theorem head?_of_pairwise (h : l.Pairwise (· < ·)) (hmem : a ∈ l) (hle : ∀ s ∈ l, a ≤ s) :
    l.head? = some a := by
  cases l with
  | nil => cases hmem
  | cons first rest =>
    rcases List.mem_cons.1 hmem with rfl | hlater
    · rfl
    · have hlt := (List.pairwise_cons.1 h).1 a hlater
      exact absurd hlt (not_lt_of_le (hle first List.mem_cons_self))

theorem getLast?_of_pairwise (h : l.Pairwise (· < ·)) (hmem : a ∈ l) (hle : ∀ s ∈ l, s ≤ a) :
    l.getLast? = some a := by
  rcases List.eq_nil_or_concat l with rfl | ⟨earlier, last, rfl⟩
  · cases hmem
  · rw [List.concat_eq_append] at *
    rw [List.getLast?_concat]
    rcases List.mem_append.1 hmem with hearlier | hlast
    · have hlt := (List.pairwise_append.1 h).2.2 a hearlier last List.mem_cons_self
      exact absurd hlt (not_lt_of_le (hle last (List.mem_append_right _ List.mem_cons_self)))
    · rw [List.mem_singleton.1 hlast]

end Time.Instant

namespace Bucket

/--
The way of a cursor from one bucket start to the next, until it has passed the end of an interval.
-/
inductive Walk (b : Bucket) (finish : Instant) :
    Instant → Except CounterError (List Instant) → Prop where
  | past {cursor : Instant} (h : finish < cursor) : Walk b finish cursor (.ok [])
  | step {cursor next : Instant} {out : Except CounterError (List Instant)} (h : cursor ≤ finish)
    (hnext : b.next cursor = .ok next) (hrest : Walk b finish next out) :
    Walk b finish cursor (out.map (cursor :: ·))
  | stuck {cursor : Instant} {e : CounterError} (h : cursor ≤ finish)
    (hnext : b.next cursor = .error e) : Walk b finish cursor (.error e)

/--
No bucket of this kind comes after the one that contains an instant.
-/
def IsLast (b : Bucket) (a : Instant) : Prop :=
  ∀ c : Instant, b.floor c ≤ b.floor a

variable {b : Bucket} {a cursor finish s : Instant} {starts : List Instant} {e : CounterError}

theorem isLast_iff : b.IsLast a ↔ b.floor a = b.floor Instant.latest := by
  constructor
  · intro h
    apply Instant.le_antisymm _ (h Instant.latest)
    exact Resolution.floor_le_iff.2 (Resolution.index_mono a.le_latest)
  · intro h c
    rw [h]
    exact Resolution.floor_le_iff.2 (Resolution.index_mono c.le_latest)

/--
Counting the buckets up to the end of an interval is the same as walking to its end.
-/
theorem walk_startsFrom (hcursor : b.floor cursor = cursor) {n : Nat}
    (hn : b.span.index cursor + n = b.span.index finish + 1) :
    Walk b finish cursor (b.startsFrom cursor n) := by
  induction n generalizing cursor with
  | zero =>
    apply Walk.past
    rw [Resolution.lt_iff_index_lt hcursor]
    omega
  | succ n ih =>
    have hle : cursor ≤ finish := by
      rw [Resolution.le_iff_index_le hcursor]
      omega
    rw [startsFrom_succ]
    cases hnext : b.next cursor with
    | error e => exact .stuck hle hnext
    | ok next =>
      obtain ⟨hfloor, hindex⟩ := Resolution.next_eq_ok hcursor hnext
      exact .step hle hnext (ih hfloor (by omega))

theorem walk_startsOf (b : Bucket) (interval : Interval) :
    Walk b interval.finish (b.floor interval.start) (b.startsOf interval) := by
  have hn := unitsSpanned_toNat b.span interval
  have hindex : b.span.index (b.floor interval.start) = b.span.index interval.start :=
    b.span.index_floor interval.start
  apply walk_startsFrom (b.floor_floor interval.start)
  omega

namespace Walk

variable {out : Except CounterError (List Instant)}

theorem pairwise_and_mem_iff (h : Walk b finish cursor out) (hcursor : b.floor cursor = cursor)
    (hout : out = .ok starts) :
    starts.Pairwise (· < ·) ∧ ∀ s, s ∈ starts ↔ b.floor s = s ∧ cursor ≤ s ∧ s ≤ finish := by
  induction h generalizing starts with
  | past h =>
    cases hout
    refine ⟨.nil, ?_⟩
    intro s
    constructor
    · rintro ⟨⟩
    · rintro ⟨-, hlo, hhi⟩
      exact absurd h (Instant.not_lt_of_le (Instant.le_trans hlo hhi))
  | @step cursor next out h hnext hrest ih =>
    obtain ⟨rest, rfl, rfl⟩ : ∃ rest, out = .ok rest ∧ cursor :: rest = starts := by
      cases out with
      | ok rest => exact ⟨rest, rfl, Except.ok.inj hout⟩
      | error e => cases hout
    obtain ⟨hfloor, hindex⟩ := Resolution.next_eq_ok hcursor hnext
    obtain ⟨hpairwise, hmem⟩ := ih hfloor rfl
    constructor
    · apply List.pairwise_cons.2 ⟨?_, hpairwise⟩
      intro s hs
      obtain ⟨hs, hlo, -⟩ := (hmem s).1 hs
      rw [Resolution.le_iff_index_le hfloor] at hlo
      rw [Resolution.lt_iff_index_lt hs]
      omega
    · intro s
      rw [List.mem_cons, hmem]
      by_cases hs : b.floor s = s
      · rw [Resolution.eq_iff_index_eq hs hcursor, Resolution.le_iff_index_le hfloor,
          Resolution.le_iff_index_le hcursor, Resolution.le_iff_index_le hs]
        rw [Resolution.le_iff_index_le hcursor] at h
        constructor
        · rintro (h | h)
          · exact ⟨hs, by omega⟩
          · exact ⟨hs, by omega⟩
        · rintro ⟨-, hlo, hhi⟩
          by_cases heq : b.span.index s = b.span.index cursor
          · exact Or.inl heq
          · exact Or.inr ⟨hs, by omega⟩
      · constructor
        · rintro (rfl | ⟨h, -⟩)
          · exact absurd hcursor hs
          · exact absurd h hs
        · rintro ⟨h, -⟩
          exact absurd h hs
  | stuck h hnext => cases hout

theorem not_isLast_of_eq_ok (h : Walk b finish cursor out) (hcursor : b.floor cursor = cursor)
    (hout : out = .ok starts) : ¬b.IsLast finish := by
  induction h generalizing starts with
  | @past cursor h =>
    intro hlast
    have hle := Resolution.floor_le_iff.1 (hlast cursor)
    rw [Resolution.lt_iff_index_lt hcursor] at h
    omega
  | @step cursor next out h hnext hrest ih =>
    cases out with
    | ok rest => exact ih (Resolution.next_eq_ok hcursor hnext).1 rfl
    | error e => cases hout
  | stuck h hnext => cases hout

/--
A walk that does not get past the end has come to the last bucket there is.
-/
theorem isLast_of_eq_error (h : Walk b finish cursor out) (hcursor : b.floor cursor = cursor)
    (hout : out = .error e) : b.IsLast finish ∧ e = .outOfRange (b.floor finish) := by
  induction h with
  | past h => cases hout
  | @step cursor next out h hnext hrest ih =>
    cases out with
    | ok rest => cases hout
    | error e' => exact ih (Resolution.next_eq_ok hcursor hnext).1 hout
  | @stuck cursor e' h hnext =>
    cases hout
    rw [← hcursor] at hnext
    obtain ⟨he, hlast⟩ := Resolution.next_floor_eq_error hnext
    have hfinish : b.floor finish = b.floor cursor := by
      apply Resolution.floor_eq_of_index_eq
      have hle := hlast finish
      rw [Resolution.le_iff_index_le hcursor] at h
      omega
    refine ⟨?_, hfinish ▸ he⟩
    intro c
    rw [hfinish]
    exact Resolution.floor_le_iff.2 (hlast c)

end Walk

variable {interval : Interval}

/--
The enumeration of the buckets of an interval fails exactly if its end lies in the last one there
is, and what it tells is the start of that bucket.
-/
theorem startsOf_eq_error_iff :
    b.startsOf interval = .error e
      ↔ b.IsLast interval.finish ∧ e = .outOfRange (b.floor interval.finish) := by
  have hwalk := walk_startsOf b interval
  have hfloor := b.floor_floor interval.start
  constructor
  · exact hwalk.isLast_of_eq_error hfloor
  · rintro ⟨hlast, he⟩
    cases hout : b.startsOf interval with
    | ok starts => exact absurd hlast (hwalk.not_isLast_of_eq_ok hfloor hout)
    | error e' => rw [he, (hwalk.isLast_of_eq_error hfloor hout).2]

theorem mem_startsOf_iff (h : b.startsOf interval = .ok starts) :
    s ∈ starts ↔ ∃ a, interval.start ≤ a ∧ a ≤ interval.finish ∧ b.floor a = s := by
  have hfloor := b.floor_floor interval.start
  rw [((walk_startsOf b interval).pairwise_and_mem_iff hfloor h).2 s]
  constructor
  · rintro ⟨hs, hlo, hhi⟩
    -- the first bucket may begin before the interval does
    by_cases hstart : interval.start ≤ s
    · exact ⟨s, hstart, hhi, hs⟩
    · refine ⟨interval.start, Instant.le_refl _, interval.start_le, Instant.le_antisymm hlo ?_⟩
      have hle : s ≤ interval.start := Int.le_of_lt (Int.not_le.1 hstart)
      have hfirst : b.floor s ≤ b.floor interval.start :=
        Resolution.floor_le_iff.2 (Resolution.index_mono hle)
      rwa [hs] at hfirst
  · rintro ⟨a, hlo, hhi, rfl⟩
    exact ⟨b.floor_floor a, Resolution.floor_le_iff.2 (Resolution.index_mono hlo),
      Instant.le_trans (b.span.floor_le a) hhi⟩

/--
The buckets that a query of an interval reads: each that the interval meets, once and in order, from
the one at its start to the one at its end.
-/
structure Meets (b : Bucket) (interval : Interval) (starts : List Instant) : Prop where
  increasing : starts.Pairwise (· < ·)
  mem_iff : ∀ s, s ∈ starts ↔ ∃ a, interval.start ≤ a ∧ a ≤ interval.finish ∧ b.floor a = s
  first : starts.head? = some (b.floor interval.start)
  last : starts.getLast? = some (b.floor interval.finish)

theorem meets_startsOf (h : b.startsOf interval = .ok starts) : b.Meets interval starts := by
  have hincreasing : starts.Pairwise (· < ·) :=
    ((walk_startsOf b interval).pairwise_and_mem_iff (b.floor_floor interval.start) h).1
  constructor
  case increasing => exact hincreasing
  case mem_iff => exact fun s => mem_startsOf_iff h
  case first =>
    apply Instant.head?_of_pairwise hincreasing
    · exact (mem_startsOf_iff h).2 ⟨_, Instant.le_refl _, interval.start_le, rfl⟩
    · intro s hs
      obtain ⟨a, hlo, -, rfl⟩ := (mem_startsOf_iff h).1 hs
      exact Resolution.floor_le_iff.2 (Resolution.index_mono hlo)
  case last =>
    apply Instant.getLast?_of_pairwise hincreasing
    · exact (mem_startsOf_iff h).2 ⟨_, interval.start_le, Instant.le_refl _, rfl⟩
    · intro s hs
      obtain ⟨a, -, hhi, rfl⟩ := (mem_startsOf_iff h).1 hs
      exact Resolution.floor_le_iff.2 (Resolution.index_mono hhi)

end Bucket

end Rollup
