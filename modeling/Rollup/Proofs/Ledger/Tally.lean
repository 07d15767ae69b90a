import Rollup.Proofs.Calendar.Slot
import Rollup.Proofs.Journal
import Rollup.Proofs.Map

/-!
This module contains the meaning of a tally: which entries it has counted. An increment that a tally
has room for counts one entry more, and a tally has room exactly if six sums are in range.
-/

namespace Rollup

open Rollup.Time

namespace Tally

variable {t t' : Tally} {amount : Count} {instant : Instant}

/--
The row that an increment leaves for a bucket, if it has room.
-/
def rowAfter? (t : Tally) (amount : Count) (instant : Instant) (id : BucketId) :
    Option (List Count) :=
  addAt? (t.row id) (id.kind.slot instant) amount

theorem getElem?_foldl_insert {kinds : List Bucket} {rows : List (BucketId × List Count)}
    (h : kinds.mapM (t.addIn? amount instant) = some rows) (hnodup : kinds.Nodup)
    (m : Std.ExtTreeMap BucketId (List Count)) (id : BucketId) :
    (rows.foldl (fun m (id, row) => m.insert id row) m)[id]?
      = if id.kind ∈ kinds ∧ id.start = id.kind.floor instant then t.rowAfter? amount instant id
        else m[id]? := by
  -- the kinds differ, so no row is put in the place of an earlier one
  induction kinds generalizing rows m with
  | nil =>
    cases h
    simp
  | cons kind kinds ih =>
    rw [List.mapM_cons] at h
    obtain ⟨entry, hentry, h⟩ := Option.bind_eq_some_iff.1 h
    obtain ⟨rest, hrest, h⟩ := Option.bind_eq_some_iff.1 h
    cases h
    obtain ⟨row, hrow, rfl⟩ := Option.map_eq_some_iff.1 hentry
    have ⟨hfresh, hnodup⟩ := List.nodup_cons.1 hnodup
    rw [List.foldl_cons, ih hrest hnodup, getElem?_insert_eq_ite]
    obtain ⟨k, start⟩ := id
    by_cases hk : k = kind
    · subst hk
      simp only [hfresh, false_and, if_false, List.mem_cons_self, true_and, BucketId.mk.injEq]
      split
      · next hstart =>
        subst hstart
        exact hrow.symm
      · rfl
    · simp [hk]

theorem isSome_mapM_iff {α β : Type} {f : α → Option β} {xs : List α} :
    (xs.mapM f).isSome ↔ ∀ x ∈ xs, (f x).isSome := by
  induction xs with
  | nil => simp
  | cons x xs ih =>
    rw [List.mapM_cons]
    cases hx : f x with
    | none => simp [hx]
    | some y =>
      cases hxs : xs.mapM f with
      | none =>
        rw [hxs] at ih
        simpa [hx] using ih
      | some ys =>
        rw [hxs] at ih
        simpa [hx] using ih

theorem isSome_addIn? (kind : Bucket) :
    (t.addIn? amount instant kind).isSome
      = (t.rowAfter? amount instant ⟨kind, kind.floor instant⟩).isSome :=
  Option.isSome_map

theorem mem_all_bucket (kind : Bucket) : kind ∈ Bucket.all := by
  cases kind <;> decide

/--
An increment changes one year, the total and the rows of the buckets of its instant.
-/
theorem parts_of_add?_eq_some (h : t.add? amount instant = some t') :
    (∃ count, (t.years.getD instant.year 0).add? amount = some count
        ∧ t'.years = t.years.insert instant.year count)
      ∧ t.total.add? amount = some t'.total
      ∧ ∀ id : BucketId, t'.rows[id]?
        = if id.start = id.kind.floor instant then t.rowAfter? amount instant id
          else t.rows[id]? := by
  unfold add? at h
  obtain ⟨year, hyear, h⟩ := Option.bind_eq_some_iff.1 h
  obtain ⟨rows, hrows, h⟩ := Option.bind_eq_some_iff.1 h
  obtain ⟨total, htotal, h⟩ := Option.bind_eq_some_iff.1 h
  cases h
  refine ⟨⟨year, hyear, rfl⟩, htotal, ?_⟩
  intro id
  have hrow := getElem?_foldl_insert hrows (by decide) t.rows id
  simpa only [mem_all_bucket, true_and] using hrow

theorem isSome_rowAfter? (h : t.add? amount instant = some t') {id : BucketId}
    (hstart : id.start = id.kind.floor instant) : (t.rowAfter? amount instant id).isSome := by
  unfold add? at h
  obtain ⟨year, -, h⟩ := Option.bind_eq_some_iff.1 h
  obtain ⟨rows, hrows, -⟩ := Option.bind_eq_some_iff.1 h
  have hall := isSome_mapM_iff.1 (Option.isSome_of_eq_some hrows) id.kind (mem_all_bucket _)
  rwa [isSome_addIn?, ← hstart] at hall

theorem add?_eq_some (h : t.add? amount instant = some t') :
    (t.years.getD instant.year 0).add? amount = some (t'.years.getD instant.year 0)
      ∧ (∀ y, y ≠ instant.year → t'.years.getD y 0 = t.years.getD y 0)
      ∧ t.total.add? amount = some t'.total
      ∧ ∀ id : BucketId, if id.start = id.kind.floor instant then
          t.rowAfter? amount instant id = some (t'.row id)
        else t'.row id = t.row id := by
  obtain ⟨⟨year, hyear, hyears⟩, htotal, hrows⟩ := parts_of_add?_eq_some h
  refine ⟨?_, ?_, htotal, ?_⟩
  · rw [hyear, hyears, Std.ExtTreeMap.getD_insert_self]
  · intro y hy
    simp only [hyears, Std.ExtTreeMap.getD_eq_getD_getElem?, getElem?_insert_eq_ite, if_neg hy]
  · intro id
    have hrow := hrows id
    split
    · next hstart =>
      obtain ⟨row, hafter⟩ := Option.isSome_iff_exists.1 (isSome_rowAfter? h hstart)
      rw [if_pos hstart, hafter] at hrow
      rw [hafter]
      simp only [Tally.row, Std.ExtTreeMap.getD_eq_getD_getElem?, hrow, Option.getD_some]
    · next hstart =>
      rw [if_neg hstart] at hrow
      simp only [row, Std.ExtTreeMap.getD_eq_getD_getElem?, hrow]

/--
A tally has room for an increment exactly if the year, all four slots and the total have.
-/
theorem isSome_add?_iff :
    (t.add? amount instant).isSome
      ↔ ((t.years.getD instant.year 0).add? amount).isSome
        ∧ (∀ kind : Bucket,
            (((t.row ⟨kind, kind.floor instant⟩).getD (kind.slot instant) 0).add? amount).isSome)
        ∧ (t.total.add? amount).isSome := by
  have hrows : (Bucket.all.mapM (t.addIn? amount instant)).isSome ↔ ∀ kind : Bucket,
      (((t.row ⟨kind, kind.floor instant⟩).getD (kind.slot instant) 0).add? amount).isSome := by
    rw [isSome_mapM_iff]
    constructor
    · intro h kind
      have := h kind (mem_all_bucket kind)
      rwa [isSome_addIn?, rowAfter?, addAt?, Option.isSome_map] at this
    · intro h kind _
      rw [isSome_addIn?, rowAfter?, addAt?, Option.isSome_map]
      exact h kind
  rw [← hrows]
  unfold add?
  cases (t.years.getD instant.year 0).add? amount with
  | none => simp
  | some year =>
    cases Bucket.all.mapM (t.addIn? amount instant) with
    | none => simp
    | some rows => cases t.total.add? amount <;> simp

structure Tells (t : Tally) (entries : List Entry) : Prop where
  total : t.total.val = sumWhere (fun _ => True) entries
  years : ∀ y, (t.years.getD y 0).val = sumWhere (fun a => a.year = y) entries
  rows : ∀ id : BucketId, (t.row id).map Count.val
    = (List.range (id.kind.slots id.start)).map fun j =>
      sumWhere (fun a => id.kind.floor a = id.start ∧ id.kind.slot a = j) entries

theorem tells_empty : Tells .empty [] where
  total := rfl
  years := by
    intro y
    simp [empty, Std.ExtTreeMap.getD_empty]
  rows := by
    intro id
    simp only [row, empty, Std.ExtTreeMap.getD_empty, List.map_replicate, sumWhere_nil,
      List.map_const', List.length_range]
    rfl

namespace Tells

variable {entries : List Entry}

theorem length_row (h : Tells t entries) (id : BucketId) :
    (t.row id).length = id.kind.slots id.start := by
  have := congrArg List.length (h.rows id)
  rwa [List.length_map, List.length_map, List.length_range] at this

theorem val_getD_row (h : Tells t entries) (id : BucketId) {j : Nat}
    (hj : j < id.kind.slots id.start) :
    ((t.row id).getD j 0).val
      = sumWhere (fun a => id.kind.floor a = id.start ∧ id.kind.slot a = j) entries := by
  have hlen := h.length_row id
  have := congrArg (fun l => l[j]?) (h.rows id)
  simp only [List.getElem?_map, List.getElem?_range hj] at this
  rw [List.getElem?_eq_getElem (hlen ▸ hj)] at this
  rw [List.getD_eq_getElem?_getD, List.getElem?_eq_getElem (hlen ▸ hj)]
  exact Option.some.inj this

theorem map_row (h : Tells t entries) {b : Bucket} {start : Instant} (hstart : b.floor start = start) :
    (t.row ⟨b, start⟩).map Count.val = (List.range (b.slots start)).map fun k =>
      sumWhere (fun a => b.unit.index a = b.unit.index start + (k : Nat)) entries := by
  rw [h.rows]
  apply List.map_congr_left
  intro k hk
  apply sumWhere_congr
  intro e _
  exact Bucket.floor_eq_and_slot_eq_iff hstart (List.mem_range.1 hk)

theorem add (h : Tells t entries) (hadd : t.add? amount instant = some t') :
    Tells t' (entries ++ [⟨amount, instant⟩]) := by
  obtain ⟨hyear, hyears, htotal, hrows⟩ := add?_eq_some hadd
  constructor
  · rw [Count.val_add? htotal, h.total]
    simp
  · intro y
    by_cases hy : y = instant.year
    · subst hy
      rw [Count.val_add? hyear, h.years]
      simp
    · rw [hyears y hy, h.years]
      simp [Ne.symm hy]
  · intro id
    have hrow := hrows id
    have hslots := h.length_row id
    split at hrow
    · next hstart =>
      -- the bucket of the instant: one slot has the amount more, all others are as before
      obtain ⟨value, hvalue, hset⟩ := Option.map_eq_some_iff.1 hrow
      have hslot : id.kind.slot instant < id.kind.slots id.start := by
        rw [hstart]
        exact id.kind.slot_lt_slots_floor instant
      have hval := Count.val_add? hvalue
      rw [h.val_getD_row id hslot] at hval
      rw [← hset, List.map_set, h.rows, hval]
      apply List.ext_getElem
      · simp
      · intro j _ _
        simp only [List.getElem_set, List.getElem_map, List.getElem_range, sumWhere_append,
          sumWhere_singleton, ← hstart, true_and]
        split
        · next hj => rw [hj]
        · simp
    · next hstart =>
      rw [hrow, h.rows]
      apply List.map_congr_left
      intro j _
      simp [Ne.symm hstart]

end Tells

end Tally

end Rollup
