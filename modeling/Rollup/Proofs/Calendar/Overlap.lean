import Rollup.Proofs.Calendar.Level

/-!
This module contains the store keys of all representable years. Keys of adjacent levels can be the
same: a year of six digits is written like a year of four digits with its month behind it. The main
statement is `keys_told_apart`, which says that there are no other ambiguous keys.
-/

namespace Rollup

open Rollup.Time Rollup.Text

namespace Level

/--
Two instants lie in the same bucket of a level. All instants share the one bucket of the years.
-/
def SameBucket (level : Level) (a c : Instant) : Prop :=
  ∀ b : Bucket, b.level = level → b.floor a = b.floor c

/--
The year of `a` is written like the year of `c` with the month of `c` behind it.
-/
def RunsOn (a c : Instant) : Prop :=
  (1000 ≤ c.year ∧ a.year = 100 * c.year + c.month)
    ∨ (c.year ≤ -100 ∧ a.year = 100 * c.year - c.month)

/--
The bucket of `a` at a level is written like that of `c` at the next finer level `l`: from the month
on, each part of the one is the next finer part of the other.
-/
def Overlaps (level l : Level) (a c : Instant) : Prop :=
  match level, l with
  | year, month => RunsOn a c
  | month, day => RunsOn a c ∧ a.month = c.day
  | day, hour => RunsOn a c ∧ a.month = c.day ∧ a.day = c.hour
  | _, _ => False

variable {level l : Level} {a c : Instant}

theorem sameBucket_iff : level.SameBucket a c ↔ level.suffix a = level.suffix c := by
  rcases level.eq_years_or_eq_level with rfl | ⟨b, rfl⟩
  · apply iff_of_true
    · intro b hb
      cases b <;> cases hb
    · rfl
  · rw [Bucket.suffix_eq_iff]
    constructor
    · exact fun h => h b rfl
    · intro h b' hb'
      have hb : b' = b := by
        cases b <;> cases b' <;> first | rfl | cases hb'
      rwa [hb]

theorem padInt_year_eq_iff : padInt 4 a.year = padInt 4 c.year ++ padNat 2 c.month ↔ RunsOn a c := by
  have := c.date.month_mem
  rw [padInt_eq_append_iff (by decide) (show c.month < 100 by unfold Instant.month; omega)]
  rfl

theorem append_padNat_eq_iff {s t : String} {n m : Nat}
    (hlen : (padNat 2 n).toList.length = (padNat 2 m).toList.length) :
    s ++ padNat 2 n = t ++ padNat 2 m ↔ s = t ∧ n = m := by
  constructor
  · exact append_padNat_inj hlen
  · rintro ⟨rfl, rfl⟩
    rfl

theorem year_suffix_eq_iff : year.suffix a = month.suffix c ↔ RunsOn a c :=
  padInt_year_eq_iff

theorem month_suffix_eq_iff : month.suffix a = day.suffix c ↔ RunsOn a c ∧ a.month = c.day := by
  unfold suffix
  rw [append_padNat_eq_iff ((length_month a).trans (length_day c).symm), padInt_year_eq_iff]

theorem day_suffix_eq_iff :
    day.suffix a = hour.suffix c ↔ RunsOn a c ∧ a.month = c.day ∧ a.day = c.hour := by
  have hmonth : month.suffix a = day.suffix c ↔ RunsOn a c ∧ a.month = c.day := month_suffix_eq_iff
  unfold suffix at hmonth ⊢
  rw [append_padNat_eq_iff ((length_day a).trans (length_hour c).symm), hmonth, and_assoc]

theorem length_year_mem (a : Instant) :
    4 ≤ (padInt 4 a.year).toList.length ∧ (padInt 4 a.year).toList.length ≤ 7 := by
  have hyear := a.date.year_mem
  unfold minYear maxYear at hyear
  have hdigits := (Nat.length_toDigits_le_iff (n := a.year.natAbs) (b := 10) (k := 6) (by decide)
    (by decide)).2 (by unfold Instant.year; omega)
  rcases Int.lt_or_le a.year 0 with h | h
  · rw [toList_padInt_of_neg h, List.length_cons, toList_padNat, List.length_append,
      List.length_replicate]
    omega
  · rw [toList_padInt_of_nonneg h, toList_padNat, List.length_append, List.length_replicate]
    omega

theorem pairs_eq_of_suffix_eq (hlevel : level ≠ years) (hl : l ≠ years)
    (h : level.suffix a = l.suffix c) (hlt : level.pairs < l.pairs) : l.pairs = level.pairs + 1 := by
  have hlen := congrArg (fun s => s.toList.length) h
  simp only [length_suffix hlevel, length_suffix hl] at hlen
  -- two levels more add four characters, but no year is that much longer than another
  have := length_year_mem a
  have := length_year_mem c
  omega

theorem overlaps_of_suffix_eq (hlevel : level ≠ years) (hlt : level.pairs < l.pairs)
    (h : level.suffix a = l.suffix c) : level.Overlaps l a c := by
  have hl : l ≠ years := by
    rintro rfl
    exact Nat.not_lt_zero _ hlt
  have hnext := pairs_eq_of_suffix_eq hlevel hl h hlt
  unfold Overlaps
  split
  · exact year_suffix_eq_iff.1 h
  · exact month_suffix_eq_iff.1 h
  · exact day_suffix_eq_iff.1 h
  · next hyear hmonth hday =>
    cases level <;> cases l <;> simp [pairs] at hnext hyear hmonth hday hlevel

theorem suffix_eq_of_overlaps (h : level.Overlaps l a c) : level.suffix a = l.suffix c := by
  unfold Overlaps at h
  split at h
  · exact year_suffix_eq_iff.2 h
  · exact month_suffix_eq_iff.2 h
  · exact day_suffix_eq_iff.2 h
  · cases h

theorem eq_of_pairs_eq (hlevel : level ≠ years) (hl : l ≠ years) (h : level.pairs = l.pairs) :
    level = l := by
  cases level <;> cases l <;> first | rfl | contradiction

/--
The suffix of a bucket key tells the level and the bucket, unless two adjacent levels overlap.
-/
theorem suffix_eq_suffix_iff : level.suffix a = l.suffix c
    ↔ (level = l ∧ level.SameBucket a c) ∨ level.Overlaps l a c ∨ l.Overlaps level c a := by
  constructor
  · intro h
    have hyears : level = years ↔ l = years := by
      rw [← y_mem_suffix_iff (a := a), h, y_mem_suffix_iff]
    by_cases hlevel : level = years
    · have hl := hyears.1 hlevel
      subst hlevel hl
      exact Or.inl ⟨rfl, sameBucket_iff.2 h⟩
    · have hl := mt hyears.2 hlevel
      rcases Nat.lt_trichotomy level.pairs l.pairs with hlt | heq | hlt
      · exact Or.inr (Or.inl (overlaps_of_suffix_eq hlevel hlt h))
      · obtain rfl := eq_of_pairs_eq hlevel hl heq
        exact Or.inl ⟨rfl, sameBucket_iff.2 h⟩
      · exact Or.inr (Or.inr (overlaps_of_suffix_eq hl hlt h.symm))
  · rintro (⟨rfl, h⟩ | h | h)
    · exact sameBucket_iff.1 h
    · exact suffix_eq_of_overlaps h
    · exact (suffix_eq_of_overlaps h).symm

end Level

namespace KeySpace

/--
Bucket keys tell the counter, the level and the bucket, but for buckets of adjacent levels that
overlap. Keys of different kinds are never the same.
-/
theorem keys_told_apart (keys : KeySpace) (n m : String) :
    (∀ (level l : Level) (a c : Instant), keys.bucket n level a = keys.bucket m l c
        ↔ n = m ∧ ((level = l ∧ level.SameBucket a c) ∨ level.Overlaps l a c ∨ l.Overlaps level c a))
      ∧ (∀ (level : Level) (a : Instant), keys.bucket n level a ≠ keys.total m
        ∧ keys.bucket n level a ≠ keys.bookkeeping m ∧ keys.bucket n level a ≠ keys.names)
      ∧ keys.total n ≠ keys.bookkeeping m ∧ keys.total n ≠ keys.names
      ∧ keys.bookkeeping n ≠ keys.names := by
  refine ⟨?bucket, ?other, ?_, ?_, bookkeeping_ne_names⟩
  case bucket =>
    intro level l a c
    rw [bucket_inj, Level.suffix_eq_suffix_iff]
  case other =>
    intro level a
    exact ⟨bucket_ne_total, bookkeeping_ne_bucket.symm, names_ne_bucket.symm⟩
  · exact bookkeeping_ne_total.symm
  · exact names_ne_total.symm

/--
The year 202403 and the third month of the year 2024 have the same key.
-/
theorem not_level_eq_of_bucket_eq : ¬∀ (keys : KeySpace) (n m : String) (level l : Level)
    (a c : Instant), keys.bucket n level a = keys.bucket m l c → level = l := by
  intro h
  have hlevel := h .standard "a" "a" .year .month
    (.midnight ⟨202403, 1, 1, by decide, by decide, by decide⟩)
    (.midnight ⟨2024, 3, 1, by decide, by decide, by decide⟩) (by decide +kernel)
  cases hlevel

end KeySpace

end Rollup
