import Mathlib.Data.List.Forall2
import Rollup.Session.Recorded
import Rollup.Proofs.Calendar.Forward
import Rollup.Proofs.Series.Stitch

/-!
This module contains series and the rows they are cut from, whatever source the rows come from. The
main statement is `resolve_reads_slots`: the instants of a series are the starts of the units of its
interval, and each count stands in the row of the bucket and in the slot of its instant.
-/

namespace Rollup

open Rollup.Time

namespace Series

/--
A series has one count for each unit that its interval meets, in the order of the units.
-/
structure Covers (s : Series) : Prop where
  count : (s.counts.length : Int) = s.resolution.unitsSpanned s.interval.start s.interval.finish
  length : s.instants.length = s.counts.length
  first : s.instants.head? = some (s.resolution.floor s.interval.start)
  last : s.instants.getLast? = some (s.resolution.floor s.interval.finish)
  next : ∀ i (hi : i + 1 < s.instants.length),
    s.resolution.next s.instants[i] = .ok s.instants[i + 1]

variable {s : Series}

theorem getElem_instants_eq_floor
    (h : s.counts.length = (s.resolution.unitsSpanned s.interval.start s.interval.finish).toNat)
    {i : Nat} (hi : i < s.instants.length) {a : Instant}
    (ha : s.resolution.index a = s.resolution.index s.interval.start + i) :
    s.instants[i] = s.resolution.floor a := by
  obtain ⟨hfloor, hindex⟩ := (getElem_instants h).2 i hi
  rw [← hfloor]
  apply Resolution.floor_eq_of_index_eq
  rw [hindex, ha]

theorem covers_of_length
    (h : s.counts.length = (s.resolution.unitsSpanned s.interval.start s.interval.finish).toNat) :
    s.Covers := by
  have hspan := Bucket.unitsSpanned_toNat s.resolution s.interval
  have hle := s.interval.index_le s.resolution
  obtain ⟨hlength, hinstants⟩ := getElem_instants h
  have hunits := s.resolution.unitsSpanned_eq s.interval.start s.interval.finish
  constructor
  case count => omega
  case length => exact hlength
  case first =>
    have h0 : 0 < s.instants.length := by omega
    rw [List.head?_eq_getElem?, List.getElem?_eq_getElem h0,
      getElem_instants_eq_floor h h0 (a := s.interval.start) (by simp)]
  case last =>
    have hlast : s.instants.length - 1 < s.instants.length := by omega
    rw [List.getLast?_eq_getElem?, List.getElem?_eq_getElem hlast,
      getElem_instants_eq_floor h hlast (a := s.interval.finish) (by omega)]
  case next =>
    intro i hi
    obtain ⟨hfloor, hindex⟩ := hinstants i (by omega)
    obtain ⟨hfloor', hindex'⟩ := hinstants (i + 1) hi
    rw [← Resolution.forward_one, Resolution.forward_eq_ok_iff hfloor]
    exact ⟨hfloor', by omega⟩

end Series

namespace Row

theorem getElem?_cut {rows : List (List Count)} {skip len i : Nat} (hi : i < len)
    (h : skip + i < rows.flatten.length) : (cut rows skip len)[i]? = rows.flatten[skip + i]? := by
  have hpiece : i < ((rows.flatten.drop skip).take len).length := by
    rw [List.length_take, List.length_drop]
    omega
  unfold cut
  rw [List.getElem?_append_left hpiece, List.getElem?_take_of_lt hi, List.getElem?_drop]

end Row

namespace Bucket

variable {b : Bucket}

/--
Where each row has a count for each slot of its bucket, the rows put end to end have the count of an
instant as far from their begin as its unit is from the first one.
-/
theorem getElem?_flatten_rows {first : Instant} {n : Nat} {starts : List Instant}
    {rows : List (List Count)} (hfirst : b.floor first = first)
    (h : b.startsFrom first n = .ok starts)
    (hrows : List.Forall₂ (fun start row => row.length = b.slots start) starts rows)
    {a : Instant} (ha : b.span.index first ≤ b.span.index a)
    (han : b.span.index a < b.span.index first + n) {k : Nat}
    (hk : b.unit.index a = b.unit.index first + k) :
    ∃ (j : Nat) (row : List Count), starts[j]? = some (b.floor a) ∧ rows[j]? = some row
      ∧ b.slot a < row.length ∧ rows.flatten[k]? = row[b.slot a]? := by
  induction n generalizing first starts rows k with
  | zero => omega
  | succ n ih =>
    obtain ⟨next, rest, rfl, hrest, hnext, hindex, hunit⟩ := startsFrom_succ_eq_ok hfirst h
    obtain ⟨row, rows, hrow, hrest', rfl⟩ := List.forall₂_cons_left_iff.1 hrows
    by_cases heq : b.span.index a = b.span.index first
    · -- the instant is in the first bucket, so its slot is its place
      have hfloor : b.floor a = first := by
        rw [← hfirst]
        exact Resolution.floor_eq_of_index_eq heq
      have hslot := b.unit_index_eq a
      have hlt := b.slot_lt_slots_floor a
      rw [hfloor, ← hrow] at hlt
      rw [hfloor] at hslot
      refine ⟨0, row, by rw [hfloor]; rfl, rfl, hlt, ?_⟩
      obtain rfl : k = b.slot a := by omega
      rw [List.flatten_cons, List.getElem?_append_left hlt]
    · -- the instant is in a later bucket, whose rows come after all slots of the first one
      have hlater : b.span.index next ≤ b.span.index a := by omega
      have hle : b.floor next ≤ a :=
        Instant.le_trans (Resolution.floor_le_iff.2 hlater) (b.span.floor_le a)
      rw [hnext] at hle
      have hunits : b.unit.index next ≤ b.unit.index a := Resolution.index_mono hle
      obtain ⟨j, row', hstart, hrow', hlt, hcount⟩ := ih hnext hrest hrest' hlater (by omega)
        (k := k - b.slots first) (by omega)
      refine ⟨j + 1, row', hstart, hrow', hlt, ?_⟩
      rw [List.flatten_cons, List.getElem?_append_right (by omega), hrow, hcount]

theorem cutRows_eq_ok {i : Interval} {rows : List (List Count)} {counts : List Count}
    (h : b.cutRows i rows = .ok counts) :
    counts = Row.cut rows (b.slot i.start) (b.unit.unitsSpanned i.start i.finish).toNat := by
  have hspan := unitsSpanned_toNat b.unit i
  have hle := i.index_le b.unit
  have hunits := b.unit.unitsSpanned_eq i.start i.finish
  unfold cutRows at h
  generalize b.unit.unitsSpanned i.start i.finish = units at *
  lift units to Nat using by omega
  cases h
  rfl

/--
The piece that is cut out for an interval has the count of each unit from the slot of its row.
-/
theorem getElem?_of_cutRows_eq_ok {i : Interval} {starts : List Instant} {rows : List (List Count)}
    {counts : List Count} (hstarts : b.startsOf i = .ok starts)
    (hrows : List.Forall₂ (fun start row => row.length = b.slots start) starts rows)
    (hcounts : b.cutRows i rows = .ok counts) {k : Nat} (hk : k < counts.length) {a : Instant}
    (ha : b.unit.index a = b.unit.index i.start + k) :
    ∃ (j : Nat) (row : List Count), starts[j]? = some (b.floor a) ∧ rows[j]? = some row
      ∧ b.slot a < row.length ∧ counts[k]? = row[b.slot a]? := by
  have hspan := unitsSpanned_toNat b.span i
  have hlen := unitsSpanned_toNat b.unit i
  have hslot := b.unit_index_eq i.start
  have hfirst : b.span.index (b.floor i.start) = b.span.index i.start := b.span.index_floor i.start
  obtain rfl := cutRows_eq_ok hcounts
  rw [Row.length_cut] at hk
  -- the unit is one of the interval, so its bucket is among those that were asked for
  have hlo : b.span.index i.start ≤ b.span.index a := span_index_le_of_unit_index_le (by omega)
  have hhi : b.span.index a ≤ b.span.index i.finish := span_index_le_of_unit_index_le (by omega)
  obtain ⟨j, row, hstart, hrow, hlt, hcount⟩ := getElem?_flatten_rows (b.floor_floor i.start)
    hstarts hrows (a := a) (k := b.slot i.start + k) (by omega) (by omega) (by omega)
  have hwithin : b.slot i.start + k < rows.flatten.length := by
    rw [List.getElem?_eq_getElem hlt] at hcount
    exact (List.getElem?_eq_some_iff.1 hcount).1
  exact ⟨j, row, hstart, hrow, hlt, by rw [Row.getElem?_cut hk hwithin, hcount]⟩

end Bucket

/--
The actions of a source that has a state of its own and that may fail.
-/
abbrev Fetching (σ : Type) := ExceptT CounterError (StateM σ)

namespace Source

variable {σ α β : Type} {s s' : σ}

theorem run_bind (x : Fetching σ α) (f : α → Fetching σ β) (s : σ) :
    @Eq (Except CounterError β × σ) ((x >>= f).run s)
      (match x.run s with
        | (.ok a, s') => (f a).run s'
        | (.error e, s') => (.error e, s')) := by
  change ExceptT.bindCont f (x.run s).1 (x.run s).2 = _
  generalize x.run s = out
  obtain ⟨result, s'⟩ := out
  cases result <;> rfl

theorem run_bind_eq_ok {x : Fetching σ α} {f : α → Fetching σ β} {b : β}
    (h : (x >>= f).run s = (.ok b, s')) :
    ∃ a between, x.run s = (.ok a, between) ∧ (f a).run between = (.ok b, s') := by
  rw [run_bind] at h
  generalize x.run s = out at h
  obtain ⟨result, between⟩ := out
  cases result with
  | ok a => exact ⟨a, between, rfl, h⟩
  | error e => cases h

theorem run_lift (result : Except CounterError α) (s : σ) :
    @Eq (Except CounterError α × σ) ((liftExcept result : Fetching σ α).run s) (result, s) := by
  cases result <;> rfl

theorem run_lift_eq_ok {result : Except CounterError α} {a : α}
    (h : (liftExcept result : Fetching σ α).run s = (.ok a, s')) : result = .ok a ∧ s = s' := by
  rw [run_lift] at h
  exact Prod.mk.inj h

/--
Where a series comes from: each count stands in the row that the source gave for the bucket of its
instant, in the slot of the instant, provided that all rows have the lengths of their buckets. A
series of years has the counts that the source gave for the years of its instants.
-/
def Gives (source : Source (Fetching σ)) (s s' : σ) (series : Series) : Prop :=
  match series.resolution.bucket? with
  | some b => ∃ starts rows, (source.rows series.name b starts).run s = (.ok rows, s')
      ∧ (List.Forall₂ (fun start row => row.length = b.slots start) starts rows →
        ∀ i (hi : i < series.instants.length), ∃ (j : Nat) (row : List Count),
          starts[j]? = some (b.floor series.instants[i]) ∧ rows[j]? = some row
            ∧ b.slot series.instants[i] < row.length
            ∧ series.counts[i]? = row[b.slot series.instants[i]]?)
  | none => ∃ years, (source.yearCounts series.name).run s = (.ok years, s')
      ∧ ∀ i (hi : i < series.instants.length),
        series.counts[i]? = some (years.getD series.instants[i].year 0)

/--
Whatever a source gives, a series that comes of it covers its interval, and its counts stand in the
slots of its instants.
-/
theorem resolve_reads_slots (source : Source (Fetching σ)) (name : String) (interval : Interval)
    (r : Resolution) (s s' : σ) {series : Series}
    (h : (source.resolve name interval r).run s = (.ok series, s')) :
    (series.name = name ∧ series.interval = interval ∧ series.resolution = r)
      ∧ series.Covers ∧ source.Gives s s' series := by
  obtain ⟨counts, _, hcounts, hseries⟩ := run_bind_eq_ok h
  cases hseries
  refine ⟨⟨rfl, rfl, rfl⟩, ?_⟩
  unfold Source.counts at hcounts
  unfold Gives
  cases hb : r.bucket? with
  | none =>
    obtain rfl := Resolution.eq_year_of_bucket? hb
    simp only [hb] at hcounts ⊢
    obtain ⟨years, _, hyears, hwithin⟩ := run_bind_eq_ok hcounts
    cases hwithin
    have hlength : (years.within interval).length
        = (Resolution.year.unitsSpanned interval.start interval.finish).toNat := by
      rw [YearCounts.within, List.length_map, List.length_range]
      rfl
    obtain ⟨hinstants, hunits⟩ :=
      Series.getElem_instants (s := ⟨name, interval, .year, years.within interval⟩) hlength
    refine ⟨Series.covers_of_length hlength, years, hyears, ?_⟩
    intro i hi
    -- the number of a unit of years is the year itself
    have hyear : (Series.instants _)[i].year = interval.start.year + i := (hunits i hi).2
    replace hi : i < (years.within interval).length := hinstants ▸ hi
    rw [YearCounts.within, List.length_map, List.length_range] at hi
    rw [hyear, YearCounts.within, List.getElem?_map, List.getElem?_range hi]
    rfl
  | some b =>
    obtain rfl := Resolution.unit_of_bucket? hb
    simp only [hb] at hcounts ⊢
    obtain ⟨starts, _, hlift, hrest⟩ := run_bind_eq_ok hcounts
    obtain ⟨hstarts, rfl⟩ := run_lift_eq_ok hlift
    obtain ⟨rows, _, hrows, hlast⟩ := run_bind_eq_ok hrest
    obtain ⟨hcut, rfl⟩ := run_lift_eq_ok hlast
    have hlength : counts.length = (b.unit.unitsSpanned interval.start interval.finish).toNat := by
      rw [Bucket.cutRows_eq_ok hcut, Row.length_cut]
    obtain ⟨hinstants, hunits⟩ :=
      Series.getElem_instants (s := ⟨name, interval, b.unit, counts⟩) hlength
    refine ⟨Series.covers_of_length hlength, starts, rows, hrows, ?_⟩
    intro hslots i hi
    exact Bucket.getElem?_of_cutRows_eq_ok hstarts hslots hcut (hinstants ▸ hi) (hunits i hi).2

/--
The days from a leap second before the leap day up to the first of March, out of the one row that is
recorded, the row of February.
-/
theorem reads_slots_over_leapDay :
    let february : Date := ⟨2024, 2, 1, by decide, by decide, by decide⟩
    let march : Date := ⟨2024, 3, 1, by decide, by decide, by decide⟩
    let evening : Instant := ⟨⟨2024, 2, 28, by decide, by decide, by decide⟩, 86399, 1500000000,
      by decide, by decide, by decide⟩
    let noon : Instant := ⟨march, 43200, 0, by decide, by decide, by decide⟩
    let recorded : Session.Recorded :=
      ⟨[(.month, .midnight february, (List.range 29).filterMap fun n => Count.ofInt? n)], ∅, none⟩
    let series : Series := ⟨"a", ⟨evening, noon, by decide⟩, .day,
      [⟨27, by decide, by decide⟩, ⟨28, by decide, by decide⟩, 0]⟩
    let fetches : List Session.Fetch :=
      [.row "a" .month (.midnight march), .row "a" .month (.midnight february)]
    @Eq (Except CounterError Series × List Session.Fetch)
        ((recorded.source.resolve "a" series.interval .day).run []) (.ok series, fetches)
      ∧ series.Covers ∧ recorded.source.Gives [] fetches series := by
  intro february march evening noon recorded series fetches
  have hresolve : @Eq (Except CounterError Series × List Session.Fetch)
      ((recorded.source.resolve "a" series.interval .day).run []) (.ok series, fetches) := by
    decide +kernel
  exact ⟨hresolve, (resolve_reads_slots _ _ _ _ _ _ hresolve).2⟩

end Source

end Rollup
