import Rollup.Proofs.Journal
import Rollup.Proofs.Store.Booked
import Rollup.Proofs.Store.Fields
import Rollup.Proofs.Store.Increment

/-!
This module contains the meaning of the data of a store in which nothing fails: it tells the journal
of the requests that were answered, as long as they count in years of at most four digits.
-/

namespace Rollup.Store

open Rollup.Time Rollup.Text

/--
What some data has counted. A field of a bucket has the sum of the entries with its key and its
name.
-/
structure Data.Tells (keys : KeySpace) (d : Data) (j : Journal) : Prop where
  booked : d.Booked keys
  fields : ∀ key, ∀ field ∈ d.hash key, IsUnitField field
  total : ∀ n, (d.strings.getD (keys.total n) 0).val = sumWhere (fun _ => True) (j n)
  names : ∀ n, n ∈ d.members keys.names ↔ j n ≠ []
  counts : ∀ n level (a : Instant), a.ShortYear → ∀ field,
    (d.count (keys.bucket n level a) field).val
      = sumWhere (fun c => level.suffix c = level.suffix a ∧ level.field c = field) (j n)

namespace Data

variable {keys : KeySpace} {name : String} {d after : Data} {j : Journal}

theorem tells_empty (keys : KeySpace) : Tells keys .empty .empty where
  booked := booked_empty keys
  fields := by simp [hash, empty]
  total := by simp [empty, Journal.empty]
  names := by simp [members, empty, Journal.empty]
  counts := by simp [count, hash, empty, Journal.empty]

namespace Tells

theorem increment {amount total : Count} {instant : Instant} (h : d.Tells keys j)
    (hshort : instant.ShortYear) (hincr : d.Incremented keys name amount instant total after)
    (hbooked : after.Booked keys) :
    after.Tells keys fun n => if n = name then j n ++ [⟨amount, instant⟩] else j n where
  booked := hbooked
  fields := by
    intro key field hfield
    rcases hincr.fields key field hfield with hfield | hlevel
    · exact h.fields key field hfield
    · obtain ⟨level, -, heq⟩ := List.mem_map.1 hlevel
      rw [← (Prod.mk.inj heq).2]
      exact level.isUnitField_field instant
  total := by
    intro n
    have hsum := Count.val_add? hincr.sum
    rw [h.total] at hsum
    rw [hincr.strings, Std.ExtTreeMap.getD_eq_getD_getElem?, getElem?_insert_eq_ite]
    simp only [KeySpace.total_inj]
    by_cases hn : n = name
    · simp [hn, hsum]
    · simp [hn, ← h.total, Std.ExtTreeMap.getD_eq_getD_getElem?]
  names := by
    intro n
    rw [hincr.names, h.names]
    by_cases hn : n = name
    · simp [hn]
    · simp [hn]
  counts := by
    intro n level a ha field
    rw [hincr.count, h.counts n level a ha field]
    simp only [KeySpace.mem_levels_iff hshort ha]
    by_cases hn : n = name
    · simp [hn]
    · simp [hn]

theorem reset (h : d.Tells keys j) (hbooked : (d.reset keys name).Booked keys) :
    (d.reset keys name).Tells keys fun n => if n = name then [] else j n where
  booked := hbooked
  fields := by
    intro key field hfield
    apply h.fields key
    unfold hash at hfield ⊢
    rw [Std.ExtTreeMap.getD_eq_getD_getElem?] at hfield ⊢
    rw [getElem?_hashes_reset] at hfield
    split at hfield
    · simp at hfield
    · exact hfield
  total := by
    intro n
    rw [h.booked.total_reset]
    split
    · rfl
    · exact h.total n
  names := by
    intro n
    rw [h.booked.mem_names_reset, h.names]
    by_cases hn : n = name
    · simp [hn]
    · simp [hn]
  counts := by
    intro n level a ha field
    rw [count, h.booked.hash_reset]
    split
    · simp
    · exact h.counts n level a ha field

theorem map_row (h : d.Tells keys j) {b : Bucket} {start : Instant} (hstart : b.floor start = start)
    (hshort : start.ShortYear) :
    (Counters.row b start (d.hash (b.key keys name start))).map Count.val
      = (List.range (b.slots start)).map fun k =>
        sumWhere (fun a => b.unit.index a = b.unit.index start + (k : Nat)) (j name) := by
  rw [Counters.row_eq (h.fields _), List.map_map]
  apply List.map_congr_left
  intro k hk
  apply (h.counts name b.level start hshort _).trans
  apply sumWhere_congr
  intro e _
  exact Bucket.suffix_eq_and_field_eq_iff hstart (List.mem_range.1 hk)

theorem years (h : d.Tells keys j) (y : Int) :
    ((Counters.yearsOf (d.hash (keys.years name))).getD y 0).val
      = sumWhere (fun a => a.year = y) (j name) := by
  -- the key of the counts per year is the same for all instants, so any of them will do
  have hzero : Instant.ShortYear (.midnight ⟨0, 1, 1, by decide, by decide, by decide⟩) := by
    decide
  rw [Counters.getD_yearsOf (h.fields _)]
  apply (h.counts name .years _ hzero (decimal y)).trans
  apply sumWhere_congr
  intro e _
  simp only [Level.suffix, Level.field, true_and]
  exact decimal_inj

end Tells

end Data

end Rollup.Store
