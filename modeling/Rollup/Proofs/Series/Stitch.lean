import Rollup.Source
import Rollup.Proofs.Calendar.Slot

/-!
This module contains the rows of consecutive buckets put end to end: they count consecutive units,
so that the piece cut out for an interval has one count for each of its units, in their order. The
unit starts of a series are numbered in the same way.
-/

namespace Rollup

open Rollup.Time

namespace Bucket

theorem startsFrom_go (b : Bucket) (n : Nat) (first : Instant) (earlier : List Instant) :
    startsFrom.go b n first earlier = (startsFrom.go b n first []).map (earlier.reverse ++ ·) := by
  -- the starts found so far are kept in reverse
  induction n generalizing first earlier with
  | zero => simp [startsFrom.go, Except.map]
  | succ n ih =>
    unfold startsFrom.go
    cases b.next first with
    | ok next =>
      simp only
      rw [ih next (first :: earlier), ih next [first]]
      cases startsFrom.go b n next [] with
      | ok starts => simp [Except.map]
      | error e => rfl
    | error e => rfl

theorem startsFrom_succ (b : Bucket) (first : Instant) (n : Nat) :
    b.startsFrom first (n + 1)
      = match b.next first with
        | .ok next => (b.startsFrom next n).map (first :: ·)
        | .error e => .error e := by
  unfold startsFrom
  rw [startsFrom.go]
  cases b.next first with
  | ok next =>
    simp only
    rw [startsFrom_go]
    rfl
  | error e => rfl

theorem startsFrom_eq_error {b : Bucket} {first : Instant} {n : Nat} {e : CounterError}
    (h : b.startsFrom first n = .error e) : ∃ origin, e = .outOfRange origin := by
  induction n generalizing first with
  | zero => cases h
  | succ n ih =>
    rw [startsFrom_succ] at h
    split at h
    · next next hnext =>
      cases hrest : b.startsFrom next n with
      | ok starts =>
        rw [hrest] at h
        cases h
      | error e' =>
        rw [hrest] at h
        cases h
        exact ih hrest
    · next hnext =>
      cases h
      exact ⟨_, (stepFrom_eq_error_iff.1 hnext).2⟩

theorem startsFrom_succ_eq_ok {b : Bucket} {first : Instant} {n : Nat} {starts : List Instant}
    (hfirst : b.floor first = first) (h : b.startsFrom first (n + 1) = .ok starts) :
    ∃ next rest, starts = first :: rest ∧ b.startsFrom next n = .ok rest ∧ b.floor next = next
      ∧ b.span.index next = b.span.index first + 1
      ∧ b.unit.index next = b.unit.index first + b.slots first := by
  rw [startsFrom_succ] at h
  split at h
  · next next hnext =>
    rw [← hfirst] at hnext
    obtain ⟨hfloor, hindex⟩ := Resolution.next_floor_eq_ok hnext
    have hunit := unit_index_of_next_eq_ok hnext
    rw [hfirst] at hunit
    cases hrest : b.startsFrom next n with
    | ok rest =>
      rw [hrest] at h
      cases h
      exact ⟨next, rest, rfl, hrest, hfloor, hindex, hunit⟩
    | error e =>
      rw [hrest] at h
      cases h
  · cases h

theorem floor_of_mem_startsFrom {b : Bucket} {first s : Instant} {n : Nat} {starts : List Instant}
    (hfirst : b.floor first = first) (h : b.startsFrom first n = .ok starts) (hs : s ∈ starts) :
    b.floor s = s
      ∧ b.span.index first ≤ b.span.index s ∧ b.span.index s < b.span.index first + n := by
  induction n generalizing first starts with
  | zero =>
    cases h
    cases hs
  | succ n ih =>
    obtain ⟨next, rest, rfl, hrest, hnext, hindex, _⟩ := startsFrom_succ_eq_ok hfirst h
    rcases List.mem_cons.1 hs with rfl | hs
    · exact ⟨hfirst, by omega⟩
    · have := ih hnext hrest hs
      exact ⟨this.1, by omega⟩

/--
Rows that count the units of their buckets count consecutive units when they are put end to end.
-/
theorem flatten_rows {α : Type} {b : Bucket} {row : Instant → List α} {value : Int → α}
    {first : Instant} {n : Nat} {starts : List Instant}
    (hfirst : b.floor first = first) (h : b.startsFrom first n = .ok starts)
    (hrow : ∀ s ∈ starts,
      row s = (List.range (b.slots s)).map fun j => value (b.unit.index s + (j : Nat))) :
    ∃ total, (starts.map row).flatten
        = (List.range total).map (fun j => value (b.unit.index first + (j : Nat)))
      ∧ ∀ a, b.span.index a < b.span.index first + n → b.unit.index a < b.unit.index first + total := by
  -- the first unit of each bucket comes directly after the last one of the bucket before
  induction n generalizing first starts with
  | zero =>
    cases h
    refine ⟨0, rfl, ?_⟩
    intro a ha
    have := unit_index_lt hfirst (a := a) (by omega)
    omega
  | succ n ih =>
    obtain ⟨next, rest, rfl, hrest, hnext, hindex, hunit⟩ := startsFrom_succ_eq_ok hfirst h
    have hrow' : ∀ s ∈ rest,
        row s = (List.range (b.slots s)).map fun j => value (b.unit.index s + (j : Nat)) := by
      intro s hs
      apply hrow
      exact List.mem_cons_of_mem _ hs
    obtain ⟨total, hflat, hcover⟩ := ih hnext hrest hrow'
    refine ⟨b.slots first + total, ?_, ?_⟩
    · rw [List.map_cons, List.flatten_cons, hflat, hrow first List.mem_cons_self, List.range_add,
        List.map_append, List.map_map]
      congr 1
      apply List.map_congr_left
      intro j _
      rw [Function.comp_apply, hunit]
      congr 1
      omega
    · intro a ha
      have := hcover a (by omega)
      omega

end Bucket

namespace Row

theorem map_cut {β : Type} {f : Count → β} {rows : List (List Count)} {total skip len : Nat}
    (value : Nat → β) (h : rows.flatten.map f = (List.range total).map value)
    (hlen : skip + len ≤ total) :
    (cut rows skip len).map f = (List.range len).map fun j => value (skip + j) := by
  have htotal : rows.flatten.length = total := by
    have := congrArg List.length h
    rwa [List.length_map, List.length_map, List.length_range] at this
  -- a piece within the rows is filled up with no zeros
  have hpiece : ((rows.flatten.drop skip).take len).length = len := by
    rw [List.length_take, List.length_drop]
    omega
  unfold cut
  simp only [hpiece, Nat.sub_self, List.replicate_zero, List.append_nil]
  rw [List.map_take, List.map_drop, h]
  apply List.ext_getElem
  · simp only [List.length_take, List.length_drop, List.length_map, List.length_range]
    omega
  · intro i _ _
    simp

theorem mem_cut {rows : List (List Count)} {skip len : Nat} {count : Count}
    (h : count ∈ cut rows skip len) : count = 0 ∨ ∃ row ∈ rows, count ∈ row := by
  rcases List.mem_append.1 h with h | h
  · right
    exact List.mem_flatten.1 (List.mem_of_mem_drop (List.mem_of_mem_take h))
  · left
    exact List.eq_of_mem_replicate h

end Row

namespace Interval

theorem index_le (i : Interval) (r : Resolution) : r.index i.start ≤ r.index i.finish :=
  Resolution.index_mono i.start_le

end Interval

namespace Bucket

theorem unitsSpanned_toNat (r : Resolution) (i : Interval) :
    ((r.unitsSpanned i.start i.finish).toNat : Int) = r.index i.finish - r.index i.start + 1 := by
  have := i.index_le r
  rw [Resolution.unitsSpanned_eq]
  omega

theorem floor_of_mem_startsOf {b : Bucket} {i : Interval} {starts : List Instant} {s : Instant}
    (h : b.startsOf i = .ok starts) (hs : s ∈ starts) :
    b.floor s = s ∧ b.span.index i.start ≤ b.span.index s
      ∧ b.span.index s ≤ b.span.index i.finish := by
  have hn := unitsSpanned_toNat b.span i
  have ⟨hfloor, hlo, hhi⟩ := floor_of_mem_startsFrom (b.floor_floor i.start) h hs
  have hfirst : b.span.index (b.floor i.start) = b.span.index i.start := b.span.index_floor i.start
  refine ⟨hfloor, ?_⟩
  omega

theorem map_cutRows {β : Type} {f : Count → β} {b : Bucket} {i : Interval} {starts : List Instant}
    (row : Instant → List Count) (value : Int → β) (h : b.startsOf i = .ok starts)
    (hrow : ∀ s ∈ starts,
      (row s).map f = (List.range (b.slots s)).map fun j => value (b.unit.index s + (j : Nat))) :
    ∃ counts, b.cutRows i (starts.map row) = .ok counts
      ∧ counts.map f = (List.range (b.unit.unitsSpanned i.start i.finish).toNat).map
        fun j => value (b.unit.index i.start + (j : Nat)) := by
  have hspan := unitsSpanned_toNat b.span i
  have hfirst : b.span.index (b.floor i.start) = b.span.index i.start := b.span.index_floor i.start
  have hlen := unitsSpanned_toNat b.unit i
  have hslot := b.unit_index_eq i.start
  have hunits := b.unit.unitsSpanned_eq i.start i.finish
  obtain ⟨total, hflat, hcover⟩ := flatten_rows (b.floor_floor i.start) h hrow
  have hlast := hcover i.finish (by omega)
  generalize (b.unit.unitsSpanned i.start i.finish).toNat = len at hlen
  refine ⟨Row.cut (starts.map row) (b.slot i.start) len, ?_, ?_⟩
  · unfold cutRows
    rw [hunits, ← hlen]
    rfl
  · have hcounts : (starts.map row).flatten.map f = (List.range total).map fun j =>
        value (b.unit.index (b.floor i.start) + (j : Nat)) := by
      rw [List.map_flatten, List.map_map]
      exact hflat
    rw [Row.map_cut _ hcounts (by omega)]
    apply List.map_congr_left
    intro j _
    congr 1
    omega

end Bucket

namespace Source

theorem counts_oneByOne {row : String → Bucket → Instant → List Count} {years : String → YearCounts}
    (name : String) (interval : Interval) (r : Resolution) :
    (oneByOne (m := Except CounterError) (fun name b start => pure (row name b start))
        (fun name => pure (years name))).counts name interval r
      = match r.bucket? with
        | none => .ok ((years name).within interval)
        | some b => (b.startsOf interval).bind fun starts =>
          b.cutRows interval (starts.map (row name b)) := by
  unfold counts
  cases r.bucket? with
  | none => rfl
  | some b =>
    simp only
    cases b.startsOf interval with
    | error e => rfl
    | ok starts =>
      have hrows : (oneByOne (m := Except CounterError) (fun name b start => pure (row name b start))
          (fun name => pure (years name))).rows name b starts = .ok (starts.map (row name b)) :=
        List.mapM_pure
      change (do
        let rows ← (oneByOne (m := Except CounterError) (fun name b start => pure (row name b start))
          (fun name => pure (years name))).rows name b starts
        liftExcept (b.cutRows interval rows)) = b.cutRows interval (starts.map (row name b))
      rw [hrows]
      change liftExcept (b.cutRows interval (starts.map (row name b))) = _
      cases b.cutRows interval (starts.map (row name b)) <;> rfl

end Source

theorem Resolution.eq_year_of_bucket? {r : Resolution} (h : r.bucket? = none) : r = .year := by
  cases r with
  | year => rfl
  | _ => cases h

theorem Resolution.unit_of_bucket? {r : Resolution} {b : Bucket} (h : r.bucket? = some b) :
    b.unit = r := by
  cases r <;> cases h <;> rfl

namespace YearCounts

theorem map_within {β : Type} {f : Count → β} (years : YearCounts) (i : Interval) :
    (years.within i).map f = (List.range (Resolution.year.unitsSpanned i.start i.finish).toNat).map
      fun j => f (years.getD (Resolution.year.index i.start + (j : Nat)) 0) := by
  unfold within
  rw [List.map_map]
  rfl

end YearCounts

namespace Series

theorem map_index_unitStarts {r : Resolution} {first : Instant} {n : Nat} (last : Instant)
    (hfirst : r.floor first = first) (h : r.index first + n ≤ r.index last + 1) :
    (unitStarts r first n).map r.index = (List.range n).map (fun j => r.index first + (j : Nat))
      ∧ ∀ s ∈ unitStarts r first n, r.floor s = s := by
  induction n generalizing first with
  | zero => exact ⟨rfl, by simp [unitStarts]⟩
  | succ n ih =>
    cases hnext : r.next first with
    | ok second =>
      obtain ⟨hsecond, hindex⟩ := Resolution.next_eq_ok hfirst hnext
      obtain ⟨hmap, hfloor⟩ := ih hsecond (by omega)
      rw [unitStarts_of_next_eq_ok hnext]
      constructor
      · rw [List.map_cons, hmap, List.range_succ_eq_map, List.map_cons, List.map_map]
        congr 1
        · simp
        · apply List.map_congr_left
          intro j _
          simp only [Function.comp_apply, Nat.succ_eq_add_one]
          omega
      · intro s hs
        rcases List.mem_cons.1 hs with rfl | hs
        · exact hfirst
        · exact hfloor s hs
    | error e =>
      -- there is no unit after this one, so no further one was asked for
      have hlast := Resolution.index_le_of_next_eq_error hfirst hnext last
      obtain rfl : n = 0 := by omega
      rw [unitStarts_of_next_eq_error hnext]
      constructor
      · simp
      · intro s hs
        rw [List.mem_singleton.1 hs]
        exact hfirst

/--
A series with one count for each unit of its interval has as many instants, and each of them is the
start of its unit.
-/
theorem getElem_instants {s : Series}
    (h : s.counts.length = (s.resolution.unitsSpanned s.interval.start s.interval.finish).toNat) :
    s.instants.length = s.counts.length ∧ ∀ j (hj : j < s.instants.length),
      s.resolution.floor s.instants[j] = s.instants[j]
        ∧ s.resolution.index s.instants[j] = s.resolution.index s.interval.start + j := by
  have hspan := Bucket.unitsSpanned_toNat s.resolution s.interval
  have hfirst := s.resolution.floor_floor s.interval.start
  have hindex := s.resolution.index_floor s.interval.start
  obtain ⟨hmap, hfloor⟩ := map_index_unitStarts (n := s.counts.length) s.interval.finish
    hfirst (by omega)
  have hlen := congrArg List.length hmap
  rw [List.length_map, List.length_map, List.length_range] at hlen
  refine ⟨hlen, ?_⟩
  intro j hj
  refine ⟨hfloor _ (List.getElem_mem hj), ?_⟩
  have := congrArg (fun l => l[j]?) hmap
  simp only [List.getElem?_map, List.getElem?_range (show j < s.counts.length from hlen ▸ hj)] at this
  unfold instants at hj ⊢
  rw [List.getElem?_eq_getElem hj] at this
  rw [← hindex]
  exact Option.some.inj this

end Series

end Rollup
