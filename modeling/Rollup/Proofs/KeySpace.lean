import Rollup.KeySpace
import Rollup.Proofs.Text.Numeral

/-!
This module contains the keys of a store told apart: what kind of value a key is for, which counter
it belongs to and which bucket of the counter it names.
-/

namespace Rollup

open Rollup.Time Rollup.Text

theorem colon_not_mem_padNat (width n : Nat) : ':' ∉ (padNat width n).toList :=
  fun h => absurd (isDigit_of_mem_padNat h) (by decide)

theorem colon_not_mem_padInt (width : Nat) (n : Int) : ':' ∉ (padInt width n).toList := by
  intro h
  rcases mem_padInt h with h | h
  · cases h
  · cases h

theorem Level.colon_not_mem_suffix (level : Level) (a : Instant) :
    ':' ∉ (level.suffix a).toList := by
  cases level with
  | years => simp [suffix]
  | year => exact colon_not_mem_padInt 4 a.year
  | month => simp [suffix, colon_not_mem_padInt, colon_not_mem_padNat]
  | day => simp [suffix, colon_not_mem_padInt, colon_not_mem_padNat]
  | hour => simp [suffix, colon_not_mem_padInt, colon_not_mem_padNat]

theorem append_colon_inj {xs ys s t : List Char} (hs : ':' ∉ s) (ht : ':' ∉ t)
    (h : xs ++ ':' :: s = ys ++ ':' :: t) : xs = ys ∧ s = t := by
  -- were one of the first parts longer, the tail of the other text would contain a colon
  rcases List.append_eq_append_iff.1 h with ⟨as, hys, htail⟩ | ⟨bs, hxs, htail⟩
  · cases as with
    | nil =>
      rw [List.append_nil] at hys
      exact ⟨hys.symm, (List.cons.inj htail).2⟩
    | cons a as =>
      rw [(List.cons.inj htail).2] at hs
      simp at hs
  · cases bs with
    | nil =>
      rw [List.append_nil] at hxs
      exact ⟨hxs, (List.cons.inj htail).2.symm⟩
    | cons b bs =>
      rw [(List.cons.inj htail).2] at ht
      simp at ht

namespace KeySpace

variable {keys : KeySpace} {name n m : String} {level l : Level} {a b : Instant}

theorem toList_total (keys : KeySpace) (name : String) :
    (keys.total name).toList = keys.root.toList ++ ":total:".toList ++ name.toList := by
  simp [total, toString]

theorem toList_bookkeeping (keys : KeySpace) (name : String) :
    (keys.bookkeeping name).toList = keys.root.toList ++ ":keys:".toList ++ name.toList := by
  simp [bookkeeping, toString]

theorem toList_names (keys : KeySpace) :
    keys.names.toList = keys.root.toList ++ ":names".toList := by
  simp [names, toString]

theorem toList_bucket (keys : KeySpace) (name : String) (level : Level) (a : Instant) :
    (keys.bucket name level a).toList
      = keys.root.toList ++ ":buckets:".toList ++ name.toList ++ ':' :: (level.suffix a).toList := by
  simp [bucket, bucketBase, toString]

/--
The character that tells what a key is for. It comes after the root and a colon.
-/
def mark (keys : KeySpace) (key : String) : Option Char :=
  key.toList[keys.root.toList.length + 1]?

@[simp]
theorem mark_total : keys.mark (keys.total name) = some 't' := by
  simp [mark, toList_total]

@[simp]
theorem mark_bookkeeping : keys.mark (keys.bookkeeping name) = some 'k' := by
  simp [mark, toList_bookkeeping]

@[simp]
theorem mark_names : keys.mark keys.names = some 'n' := by
  simp [mark, toList_names]

@[simp]
theorem mark_bucket : keys.mark (keys.bucket name level a) = some 'b' := by
  simp [mark, toList_bucket]

theorem ne_of_mark_ne (keys : KeySpace) {s t : String} (h : keys.mark s ≠ keys.mark t) : s ≠ t := by
  rintro rfl
  exact h rfl

@[simp]
theorem bucket_ne_total : keys.bucket n level a ≠ keys.total m := by
  apply ne_of_mark_ne keys
  simp

@[simp]
theorem bookkeeping_ne_total : keys.bookkeeping n ≠ keys.total m := by
  apply ne_of_mark_ne keys
  simp

@[simp]
theorem names_ne_total : keys.names ≠ keys.total name := by
  apply ne_of_mark_ne keys
  simp

@[simp]
theorem bookkeeping_ne_bucket : keys.bookkeeping n ≠ keys.bucket m level a := by
  apply ne_of_mark_ne keys
  simp

@[simp]
theorem names_ne_bucket : keys.names ≠ keys.bucket name level a := by
  apply ne_of_mark_ne keys
  simp

@[simp]
theorem total_ne_bucket : keys.total n ≠ keys.bucket m level a := by
  apply ne_of_mark_ne keys
  simp

@[simp]
theorem bookkeeping_ne_names : keys.bookkeeping name ≠ keys.names := by
  apply ne_of_mark_ne keys
  simp

@[simp]
theorem names_ne_bookkeeping : keys.names ≠ keys.bookkeeping name := by
  apply ne_of_mark_ne keys
  simp

@[simp]
theorem total_inj : keys.total n = keys.total m ↔ n = m := by
  rw [← String.toList_inj, toList_total, toList_total, List.append_cancel_left_eq, String.toList_inj]

@[simp]
theorem bookkeeping_inj : keys.bookkeeping n = keys.bookkeeping m ↔ n = m := by
  rw [← String.toList_inj, toList_bookkeeping, toList_bookkeeping, List.append_cancel_left_eq,
    String.toList_inj]

/--
Bucket keys tell the counter and the suffix, even if the name contains colons.
-/
theorem bucket_inj :
    keys.bucket n level a = keys.bucket m l b ↔ n = m ∧ level.suffix a = l.suffix b := by
  constructor
  · intro h
    rw [← String.toList_inj, toList_bucket, toList_bucket] at h
    simp only [List.append_assoc, List.append_cancel_left_eq] at h
    have ⟨hname, hsuffix⟩ := append_colon_inj (level.colon_not_mem_suffix a)
      (l.colon_not_mem_suffix b) h
    exact ⟨String.toList_inj.1 hname, String.toList_inj.1 hsuffix⟩
  · rintro ⟨rfl, h⟩
    rw [bucket, h]
    rfl

def IsBucketOf (keys : KeySpace) (name key : String) : Prop :=
  ∃ (level : Level) (a : Instant), key = keys.bucket name level a

theorem isBucketOf_bucket (keys : KeySpace) (name : String) (level : Level) (a : Instant) :
    keys.IsBucketOf name (keys.bucket name level a) :=
  ⟨level, a, rfl⟩

theorem isBucketOf_years (keys : KeySpace) (name : String) :
    keys.IsBucketOf name (keys.years name) :=
  ⟨.years, .midnight ⟨0, 1, 1, by decide, by decide, by decide⟩, rfl⟩

theorem IsBucketOf.eq {key : String} (hn : keys.IsBucketOf n key) (hm : keys.IsBucketOf m key) :
    n = m := by
  obtain ⟨_, _, rfl⟩ := hn
  obtain ⟨_, _, h⟩ := hm
  exact (bucket_inj.1 h).1

theorem isBucketOf_of_mem_levels {key field : String} (h : (key, field) ∈ keys.levels name a) :
    keys.IsBucketOf name key := by
  obtain ⟨level, _, heq⟩ := List.mem_map.1 h
  cases heq
  exact ⟨level, a, rfl⟩

end KeySpace

end Rollup
