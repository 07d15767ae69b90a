import Rollup.Proofs.Ledger.History

/-!
This module contains the agreement of the levels at which a tally counts. Years, months, days, hours
and minutes are counted separately. The main statement is `levels_agree`: still each count is the sum
of the counts one level finer, and no bucket is too short for the instants in it.
-/

namespace Rollup

open Rollup.Time

namespace Tally

variable {t t' : Tally} {amount : Count} {instant : Instant} {entries : List Entry}

/--
A tally stores the years and the buckets of its entries, and no others.
-/
structure Stores (t : Tally) (entries : List Entry) : Prop where
  mem_years : ∀ y, y ∈ t.years ↔ ∃ e ∈ entries, e.instant.year = y
  mem_rows : ∀ id : BucketId, id ∈ t.rows ↔ ∃ e ∈ entries, id.kind.floor e.instant = id.start

theorem stores_empty : Stores .empty [] where
  mem_years y := by simp [empty]
  mem_rows id := by simp [empty]

namespace Stores

theorem add (h : t.Stores entries) (hadd : t.add? amount instant = some t') :
    t'.Stores (entries ++ [⟨amount, instant⟩]) := by
  obtain ⟨⟨count, -, hyears⟩, -, hrows⟩ := parts_of_add?_eq_some hadd
  constructor
  · intro y
    rw [hyears, Std.ExtTreeMap.mem_insert, h.mem_years, Std.LawfulEqCmp.compare_eq_iff_eq]
    simp only [List.mem_append, List.mem_singleton, or_and_right, exists_or, exists_eq_left]
    exact or_comm
  · intro id
    simp only [List.mem_append, List.mem_singleton, or_and_right, exists_or, exists_eq_left]
    rw [Std.ExtTreeMap.mem_iff_isSome_getElem?, hrows]
    split
    · next hstart => simp [isSome_rowAfter? hadd hstart, hstart]
    · next hstart =>
      rw [← Std.ExtTreeMap.mem_iff_isSome_getElem?, h.mem_rows]
      simp [Ne.symm hstart]

end Stores

/--
The count of all slots of a bucket.
-/
def rowSum (t : Tally) (id : BucketId) : Int :=
  ((t.row id).map Count.val).sum

namespace Tells

theorem rowSum_eq (h : t.Tells entries) {b : Bucket} {start : Instant}
    (hstart : b.floor start = start) :
    t.rowSum ⟨b, start⟩ = sumWhere (fun a => b.floor a = start) entries := by
  let units := (List.range (b.slots start)).map fun j => b.unit.index start + (j : Nat)
  have hnodup : units.Nodup := by
    apply List.Pairwise.map _ _ List.nodup_range
    intro j k hjk
    omega
  have hunits : ∀ a, b.unit.index a ∈ units ↔ b.floor a = start := by
    intro a
    rw [List.mem_map]
    constructor
    · rintro ⟨j, hj, hindex⟩
      exact ((Bucket.floor_eq_and_slot_eq_iff hstart (List.mem_range.1 hj)).2 hindex.symm).1
    · rintro rfl
      refine ⟨b.slot a, ?_, (b.unit_index_eq a).symm⟩
      rw [List.mem_range]
      exact b.slot_lt_slots_floor a
  calc t.rowSum ⟨b, start⟩
      = (units.map fun unit => sumWhere (fun a => b.unit.index a = unit) entries).sum := by
        rw [rowSum, h.map_row hstart, List.map_map]
        rfl
    _ = sumWhere (fun a => b.unit.index a ∈ units) entries :=
        sum_map_sumWhere hnodup b.unit.index entries
    _ = sumWhere (fun a => b.floor a = start) entries :=
        sumWhere_congr fun e _ => hunits e.instant

end Tells

/--
The levels of a tally agree: buckets are stored by their starts and in full length, so each instant
has a slot to be counted in, and the count of each unit is the sum of the counts one level finer.
-/
structure Agrees (t : Tally) : Prop where
  stored : ∀ (id : BucketId) (row : List Count), t.rows[id]? = some row →
    id.kind.floor id.start = id.start ∧ row.length = id.kind.slots id.start
  hasSlot : ∀ (b : Bucket) (a : Instant), b.slot a < (t.row ⟨b, b.floor a⟩).length
  total : t.total.val = (t.years.keys.map fun y => (t.years.getD y 0).val).sum
  years : ∀ y ∈ t.years, ∃ a : Instant, a.year = y
  year : ∀ a : Instant, (t.years.getD a.year 0).val = t.rowSum ⟨.year, Bucket.year.floor a⟩
  slot : ∀ coarse fine : Bucket, coarse.unit = fine.span → ∀ start, coarse.floor start = start →
    ∀ j < coarse.slots start, ∃ first, fine.floor first = first
      ∧ coarse.floor first = start ∧ coarse.slot first = j
      ∧ ((t.row ⟨coarse, start⟩).getD j 0).val = t.rowSum ⟨fine, first⟩

namespace Tells

theorem agrees (h : t.Tells entries) (hs : t.Stores entries) : t.Agrees where
  stored id row hrow := by
    have hlen := h.length_row id
    rw [Tally.row, Std.ExtTreeMap.getD_eq_getD_getElem?, hrow, Option.getD_some] at hlen
    refine ⟨?_, hlen⟩
    obtain ⟨e, -, hstart⟩ := (hs.mem_rows id).1 <|
      Std.ExtTreeMap.mem_iff_isSome_getElem?.2 (Option.isSome_of_eq_some hrow)
    rw [← hstart, Bucket.floor_floor]
  hasSlot b a := by
    rw [h.length_row]
    exact b.slot_lt_slots_floor a
  total := by
    simp only [h.years]
    rw [h.total, sum_map_sumWhere Std.ExtTreeMap.nodup_keys]
    apply sumWhere_congr
    intro e he
    rw [Std.ExtTreeMap.mem_keys, hs.mem_years]
    exact iff_of_true trivial ⟨e, he, rfl⟩
  years y hy := by
    obtain ⟨e, -, hyear⟩ := (hs.mem_years y).1 hy
    exact ⟨e.instant, hyear⟩
  year a := by
    rw [h.years, h.rowSum_eq (Bucket.floor_floor _ a)]
    apply sumWhere_congr
    intro e _
    exact (Resolution.floor_eq_iff (r := .year)).symm
  slot coarse fine hunit start hstart j hj := by
    obtain ⟨first, hfloor, hslot, hfirst⟩ := Bucket.exists_slot_eq hstart hj
    rw [hunit] at hfirst
    refine ⟨first, hfirst, hfloor, hslot, ?_⟩
    rw [h.val_getD_row ⟨coarse, start⟩ hj, h.rowSum_eq hfirst]
    apply sumWhere_congr
    intro e _
    -- the slot and the finer bucket hold the same unit
    have hself := (Bucket.floor_eq_and_slot_eq_iff hstart hj).1 ⟨hfloor, hslot⟩
    rw [Bucket.floor_eq_and_slot_eq_iff hstart hj, ← hself, hunit, ← Resolution.floor_eq_iff,
      hfirst]
    rfl

end Tells

end Tally

namespace Ledger

/--
The levels of each counter agree, whatever was asked of the ledger before.
-/
theorem levels_agree (requests : List Request) (name : String) :
    ((empty.after requests).tally name).Agrees := by
  let P (t : Tally) : Prop := ∃ entries, t.Tells entries ∧ t.Stores entries
  have hempty : P .empty := ⟨[], Tally.tells_empty, Tally.stores_empty⟩
  obtain ⟨entries, htells, hstores⟩ := tally_after hempty (by
    rintro t t' amount instant ⟨entries, htells, hstores⟩ hadd
    exact ⟨_, htells.add hadd, hstores.add hadd⟩) requests name
  exact htells.agrees hstores

end Ledger

end Rollup
