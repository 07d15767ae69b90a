import Rollup.Proofs.Store.Fields

/-!
This module contains the places of the counts of an instant in a store: the keys and fields that an
increment writes, and what a query makes of them. The main statement is `levels_read_back`: every
count is read from where it was written.
-/

namespace Rollup

open Rollup.Time Rollup.Text

namespace Bucket

variable {b : Bucket} {a : Instant} {hash : Store.Hash} {entries : List (String × Count)}

theorem key_floor (b : Bucket) (keys : KeySpace) (name : String) (a : Instant) :
    b.key keys name (b.floor a) = keys.bucket name b.level a := by
  unfold key KeySpace.bucket
  rw [suffix_floor]

theorem denotesSlot_field (b : Bucket) (a : Instant) :
    Row.DenotesSlot (b.slots (b.floor a)) b.firstUnit (b.slot a) (b.level.field a) := by
  have hslot := b.slot_lt_slots_floor a
  have hsize : b.firstUnit + b.slots a ≤ 2 ^ 64 := by
    have := monthLength_le a.date.year a.date.month
    cases b <;> simp only [firstUnit, slots, Date.daysInMonth] <;> omega
  rw [slots_floor] at hslot ⊢
  refine ⟨hslot, by omega, ?_⟩
  rw [field_eq]
  have hread : readUnsigned 64 (decimal (b.firstUnit + b.slot a : Nat))
      = .ok (b.firstUnit + b.slot a) := readUnsigned_decimal (by omega)
  exact (readUnsigned_eq_ok_iff.1 hread).1

/--
The row of a bucket has, in the slot of an instant, the count in the field of the instant, or zero
if there is none, as long as no other field denotes that slot.
-/
theorem getElem?_row_of_forall (hentries : entries.Perm hash.toList)
    (honly : ∀ f ∈ hash, Row.DenotesSlot (b.slots (b.floor a)) b.firstUnit (b.slot a) f →
      f = b.level.field a) :
    (Row.ofFields (b.slots (b.floor a)) b.firstUnit entries)[b.slot a]?
      = some (hash.getD (b.level.field a) 0) := by
  have hdenotes := b.denotesSlot_field a
  by_cases hfield : b.level.field a ∈ hash
  · rw [Row.getElem?_ofFields_of_denotesSlot hentries hfield hdenotes honly,
      Std.ExtTreeMap.getElem?_eq_some_getD hfield]
  · rw [Row.getElem?_ofFields_of_forall_not hentries hdenotes.1,
      Std.ExtTreeMap.getD_eq_fallback hfield]
    intro f hf hslot
    exact hfield (honly f hf hslot ▸ hf)

end Bucket

theorem Level.readSigned_field (a : Instant) : readSigned 32 (years.field a) = .ok a.year := by
  have hyear := a.date.year_mem
  unfold minYear maxYear at hyear
  unfold field Instant.year
  exact readSigned_decimal (by omega) (by omega)

theorem Level.yearOf?_field (a : Instant) :
    Store.Counters.yearOf? (years.field a) = some a.year := by
  unfold Store.Counters.yearOf?
  rw [readSigned_field]
  rfl

namespace KeySpace

theorem levels_eq (keys : KeySpace) (name : String) (a : Instant) :
    keys.levels name a = (keys.years name, Level.years.field a)
      :: Bucket.all.map fun b => (b.key keys name (b.floor a), b.level.field a) := by
  simp only [Bucket.key_floor]
  rfl

/--
The counts of an instant are written where they are read: the first level is the hash of the years,
in the field of its year, and the others are the buckets of the instant from coarse to fine, each in
the field of its slot, whatever other fields a hash has.
-/
theorem levels_read_back (keys : KeySpace) (name : String) (a : Instant) :
    keys.levels name a = (keys.years name, Level.years.field a)
        :: Bucket.all.map (fun b => (b.key keys name (b.floor a), b.level.field a))
      ∧ (∀ b : Bucket, b.slot a < b.slots (b.floor a)
        ∧ Row.DenotesSlot (b.slots (b.floor a)) b.firstUnit (b.slot a) (b.level.field a)
        ∧ ∀ (hash : Store.Hash) (entries : List (String × Count)), entries.Perm hash.toList →
          (∀ f ∈ hash, Row.DenotesSlot (b.slots (b.floor a)) b.firstUnit (b.slot a) f →
            f = b.level.field a) →
          (Row.ofFields (b.slots (b.floor a)) b.firstUnit entries)[b.slot a]?
            = some (hash.getD (b.level.field a) 0))
      ∧ readSigned 32 (Level.years.field a) = .ok a.year
      ∧ ∀ hash : Store.Hash,
        (∀ f ∈ hash, Store.Counters.yearOf? f = some a.year → f = Level.years.field a) →
        (Store.Counters.yearsOf hash).getD a.year 0 = hash.getD (Level.years.field a) 0 := by
  refine ⟨levels_eq keys name a, ?bucket, ?parse, ?years⟩
  case bucket =>
    intro b
    have hdenotes := b.denotesSlot_field a
    refine ⟨hdenotes.1, hdenotes, ?_⟩
    intro hash entries hentries honly
    exact Bucket.getElem?_row_of_forall hentries honly
  case parse => exact Level.readSigned_field a
  case years =>
    intro hash honly
    apply Store.Counters.getD_yearsOf_of_forall
    intro f hf
    refine ⟨honly f hf, ?_⟩
    rintro rfl
    exact Level.yearOf?_field a

/--
The count of a leap second at the end of a year before year 0, of a counter whose name ends like a
key, in a hash with fields that no day of the month has.
-/
theorem levels_read_back_of_leapSecond :
    let count (n : Nat) : Count := (Count.ofInt? n).getD 0
    let a : Instant := ⟨⟨-5, 12, 31, by decide, by decide, by decide⟩, 86399, 1500000000,
      by decide, by decide, by decide⟩
    let hash : Store.Hash :=
      .ofList [("31", count 1), ("30", count 2), ("+32", count 3), ("", count 4)]
    ((⟨"p"⟩ : KeySpace).levels "a:years" a)[2]? = some ("p:buckets:a:years:-00512", "31")
      ∧ (hash.toList.reverse.Perm hash.toList ∧ ∀ f ∈ hash,
        Row.DenotesSlot 31 1 30 f → f = Level.month.field a)
      ∧ (Row.ofFields 31 1 hash.toList.reverse)[30]? = some (count 1) := by
  intro count a hash
  have hentries : hash.toList.reverse.Perm hash.toList := List.reverse_perm _
  have hdistinct : ∀ f ∈ hash.keys, Row.slotOf? 31 1 f = some 30 → f = Level.month.field a := by
    decide +kernel
  have honly : ∀ f ∈ hash, Row.DenotesSlot 31 1 30 f → f = Level.month.field a := by
    intro f hf hslot
    exact hdistinct f (Std.ExtTreeMap.mem_keys.2 hf) (Row.slotOf?_eq_some_iff_denotesSlot.2 hslot)
  obtain ⟨hlevels, hbuckets, -⟩ := levels_read_back ⟨"p"⟩ "a:years" a
  refine ⟨?_, ⟨hentries, honly⟩, ((hbuckets .month).2.2 hash _ hentries honly).trans ?_⟩
  · rw [hlevels]
    decide +kernel
  · decide +kernel

end KeySpace

end Rollup
