import Rollup.Proofs.Calendar.Slot
import Rollup.Proofs.KeySpace

/-!
This module contains the relation of store keys to the timeline: a bucket key tells the bucket of an
instant and a field tells its slot. Keys of different levels are only told apart in years of at most
four digits.
-/

namespace Rollup

open Rollup.Time Rollup.Text

/--
The year of an instant has at most four digits.
-/
def Time.Instant.ShortYear (a : Instant) : Prop :=
  -9999 ≤ a.year ∧ a.year ≤ 9999

instance : DecidablePred Instant.ShortYear :=
  fun a => inferInstanceAs (Decidable (-9999 ≤ a.year ∧ a.year ≤ 9999))

theorem decimal_inj {n m : Int} : decimal n = decimal m ↔ n = m := by
  constructor
  · exact padInt_injective
  · rintro rfl
    rfl

theorem append_padNat_inj {s t : String} {n m : Nat}
    (hlen : (padNat 2 n).toList.length = (padNat 2 m).toList.length)
    (h : s ++ padNat 2 n = t ++ padNat 2 m) : s = t ∧ n = m := by
  rw [← String.toList_inj, String.toList_append, String.toList_append] at h
  have ⟨hs, hp⟩ := List.append_inj' h hlen
  exact ⟨String.toList_inj.1 hs, padNat_injective (String.toList_inj.1 hp)⟩

namespace Level

variable {level l : Level} {a c : Instant}

theorem length_month (a : Instant) : (padNat 2 a.month).toList.length = 2 := by
  have := a.date.month_mem
  apply length_padNat (by decide)
  unfold Instant.month
  omega

theorem length_day (a : Instant) : (padNat 2 a.day).toList.length = 2 := by
  have := a.date.day_mem
  have := monthLength_le a.date.year a.date.month
  apply length_padNat (by decide)
  unfold Instant.day
  omega

theorem length_hour (a : Instant) : (padNat 2 a.hour).toList.length = 2 := by
  have := a.hour_lt
  apply length_padNat (by decide)
  omega

theorem length_year (ha : a.ShortYear) :
    (padInt 4 a.year).toList.length = 4 ∨ (padInt 4 a.year).toList.length = 5 := by
  unfold Instant.ShortYear at ha
  rw [length_padInt (by decide) (by omega)]
  split
  · exact Or.inl rfl
  · exact Or.inr rfl

theorem y_mem_suffix_iff : 'y' ∈ (level.suffix a).toList ↔ level = .years := by
  have hint : 'y' ∉ (padInt 4 a.year).toList := by
    intro h
    rcases mem_padInt h with h | h
    · cases h
    · cases h
  have hnat : ∀ n, 'y' ∉ (padNat 2 n).toList := by
    intro n h
    exact absurd (isDigit_of_mem_padNat h) (by decide)
  cases level with
  | years => simp [suffix]
  | year => simpa [suffix] using hint
  | month => simp [suffix, hint, hnat]
  | day => simp [suffix, hint, hnat]
  | hour => simp [suffix, hint, hnat]

def pairs : Level → Nat
  | years | year => 0
  | month => 1
  | day => 2
  | hour => 3

theorem length_suffix (hlevel : level ≠ .years) :
    (level.suffix a).toList.length = (padInt 4 a.year).toList.length + 2 * level.pairs := by
  have hmonth := length_month a
  have hday := length_day a
  have hhour := length_hour a
  cases level with
  | years => exact absurd rfl hlevel
  | year => rfl
  | month => simp only [suffix, String.toList_append, List.length_append, pairs, hmonth]
  | day => simp only [suffix, String.toList_append, List.length_append, pairs, hmonth, hday]
  | hour =>
    simp only [suffix, String.toList_append, List.length_append, pairs, hmonth, hday, hhour]

theorem eq_of_suffix_eq (ha : a.ShortYear) (hc : c.ShortYear) (h : level.suffix a = l.suffix c) :
    level = l := by
  have hyears : level = .years ↔ l = .years := by
    rw [← y_mem_suffix_iff (a := a), h, y_mem_suffix_iff]
  -- the letters tell the years from the other levels, and these are told apart by their lengths
  by_cases hlevel : level = .years
  · rw [hlevel, hyears.1 hlevel]
  · have hl : l ≠ .years := mt hyears.2 hlevel
    have hlen := congrArg (fun s => s.toList.length) h
    simp only [length_suffix hlevel, length_suffix hl] at hlen
    have hpairs : level.pairs = l.pairs := by
      -- a minus sign adds one character, but each level adds two
      rcases length_year ha with ha | ha <;> rcases length_year hc with hc | hc <;> omega
    cases level <;> cases l <;> first | rfl | contradiction

-- The last two digits of each suffix are cut off, so that the next coarser level is left.
theorem year_eq_and_month_eq (h : month.suffix a = month.suffix c) :
    a.year = c.year ∧ a.month = c.month := by
  obtain ⟨hyear, hmonth⟩ := append_padNat_inj ((length_month a).trans (length_month c).symm) h
  exact ⟨padInt_injective hyear, hmonth⟩

theorem date_eq (h : day.suffix a = day.suffix c) : a.date = c.date := by
  obtain ⟨h, hday⟩ := append_padNat_inj ((length_day a).trans (length_day c).symm) h
  obtain ⟨hyear, hmonth⟩ := year_eq_and_month_eq h
  exact Date.ext_fields hyear hmonth hday

theorem date_eq_and_hour_eq (h : hour.suffix a = hour.suffix c) :
    a.date = c.date ∧ a.hour = c.hour := by
  obtain ⟨h, hhour⟩ := append_padNat_inj ((length_hour a).trans (length_hour c).symm) h
  exact ⟨date_eq h, hhour⟩

end Level

namespace Bucket

variable {b : Bucket} {a c s : Instant} {k : Nat}

theorem suffix_floor (b : Bucket) (a : Instant) : b.level.suffix (b.floor a) = b.level.suffix a := by
  cases b with
  | hour =>
    have hhour : a.floorHour.hour = a.hour := by
      simp only [Instant.hour, Instant.floorHour]
      omega
    change _ ++ padNat 2 a.floorHour.hour = _
    rw [hhour]
    rfl
  | day => rfl
  | month => rfl
  | year => rfl

theorem suffix_eq_iff : b.level.suffix a = b.level.suffix c ↔ b.floor a = b.floor c := by
  constructor
  · intro h
    cases b with
    | hour =>
      obtain ⟨hdate, hhour⟩ := Level.date_eq_and_hour_eq h
      apply Instant.ext_fields
      · exact hdate
      · change a.hour * 3600 = c.hour * 3600
        rw [hhour]
      · rfl
    | day => exact congrArg Instant.midnight (Level.date_eq h)
    | month =>
      obtain ⟨hyear, hmonth⟩ := Level.year_eq_and_month_eq h
      exact congrArg Instant.midnight (Date.ext_fields hyear hmonth rfl)
    | year => exact congrArg Instant.midnight (Date.ext_fields (padInt_injective h) rfl rfl)
  · intro h
    rw [← suffix_floor, h, suffix_floor]

theorem field_eq (b : Bucket) (a : Instant) :
    b.level.field a = decimal ((b.firstUnit + b.slot a : Nat) : Int) := by
  cases b with
  | hour => simp [level, Level.field, firstUnit, slot]
  | day => simp [level, Level.field, firstUnit, slot]
  | month =>
    have hday : 1 + (a.day - 1) = a.day := by
      have := a.date.day_mem
      unfold Instant.day
      omega
    simp only [level, Level.field, firstUnit, slot, hday]
  | year =>
    have hmonth : 1 + (a.month - 1) = a.month := by
      have := a.date.month_mem
      unfold Instant.month
      omega
    simp only [level, Level.field, firstUnit, slot, hmonth]

theorem field_eq_iff :
    b.level.field a = decimal ((b.firstUnit + k : Nat) : Int) ↔ b.slot a = k := by
  rw [field_eq, decimal_inj]
  omega

/--
An instant is counted under a key and a field exactly if it lies in the unit that they tell.
-/
theorem suffix_eq_and_field_eq_iff (hs : b.floor s = s) (hk : k < b.slots s) :
    b.level.suffix a = b.level.suffix s ∧ b.level.field a = decimal ((b.firstUnit + k : Nat) : Int)
      ↔ b.unit.index a = b.unit.index s + k := by
  rw [suffix_eq_iff, field_eq_iff, hs]
  exact floor_eq_and_slot_eq_iff hs hk

end Bucket

namespace Level

theorem eq_years_or_eq_level (level : Level) : level = .years ∨ ∃ b : Bucket, level = b.level := by
  cases level with
  | years => exact Or.inl rfl
  | year => exact Or.inr ⟨.year, rfl⟩
  | month => exact Or.inr ⟨.month, rfl⟩
  | day => exact Or.inr ⟨.day, rfl⟩
  | hour => exact Or.inr ⟨.hour, rfl⟩

theorem mem_all (level : Level) : level ∈ all := by
  cases level <;> decide

end Level

namespace KeySpace

variable {keys : KeySpace} {n m : String} {level : Level} {a c : Instant}

/--
In years of at most four digits an increment counts under a key and a field only if they are those
of its counter and its instant.
-/
theorem mem_levels_iff (ha : a.ShortYear) (hc : c.ShortYear) (field : String) :
    (keys.bucket m level c, field) ∈ keys.levels n a
      ↔ m = n ∧ level.suffix a = level.suffix c ∧ level.field a = field := by
  constructor
  · intro h
    obtain ⟨l, -, heq⟩ := List.mem_map.1 h
    obtain ⟨hkey, rfl⟩ := Prod.mk.inj heq
    obtain ⟨rfl, hsuffix⟩ := bucket_inj.1 hkey
    obtain rfl := Level.eq_of_suffix_eq ha hc hsuffix
    exact ⟨rfl, hsuffix, rfl⟩
  · rintro ⟨rfl, hsuffix, rfl⟩
    apply List.mem_map.2
    exact ⟨level, level.mem_all, by rw [bucket_inj.2 ⟨rfl, hsuffix⟩]⟩

theorem nodup_levels (ha : a.ShortYear) : (keys.levels n a).Nodup := by
  apply List.Pairwise.map (R := (· ≠ ·)) _ _ (show Level.all.Nodup by decide)
  intro level l hne heq
  obtain ⟨-, hsuffix⟩ := bucket_inj.1 (Prod.mk.inj heq).1
  exact hne (Level.eq_of_suffix_eq ha ha hsuffix)

end KeySpace

end Rollup
