import Mathlib.Algebra.Ring.Int.Defs
import Mathlib.Algebra.Ring.Nat
import Rollup.Proofs.Calendar.Level
import Rollup.Proofs.Row
import Rollup.Store.Counters

/-!
This module contains the reading of hashes: where all fields are numerals as they are written, the
slot of a row has the count in the one field that denotes it, and a year has the count in its field.
-/

namespace Rollup

open Rollup.Text

/--
A field as it is written for a unit: the numeral of a small number.
-/
def IsUnitField (field : String) : Prop :=
  ∃ n : Int, -2 ^ 31 ≤ n ∧ n < 2 ^ 31 ∧ field = decimal n

theorem Level.isUnitField_field (level : Level) (a : Time.Instant) :
    IsUnitField (level.field a) := by
  have hyear := a.date.year_mem
  have hmonth := a.date.month_mem
  have hday := a.date.day_mem
  have hlength := Time.monthLength_le a.date.year a.date.month
  have hhour := a.hour_lt
  have hminute := a.minute_lt
  unfold Time.minYear Time.maxYear at hyear
  cases level with
  | years => exact ⟨a.date.year, by omega, by omega, rfl⟩
  | year => exact ⟨a.date.month, by omega, by omega, rfl⟩
  | month => exact ⟨a.date.day, by omega, by omega, rfl⟩
  | day => exact ⟨a.hour, by omega, by omega, rfl⟩
  | hour => exact ⟨a.minute, by omega, by omega, rfl⟩

theorem Row.slotOf?_eq_some_iff {size firstUnit k : Nat} {field : String} (hk : k < size)
    (hsize : firstUnit + size ≤ 2 ^ 64) (hfield : IsUnitField field) :
    slotOf? size firstUnit field = some k ↔ field = decimal ((firstUnit + k : Nat) : Int) := by
  obtain ⟨n, hmin, hmax, rfl⟩ := hfield
  rw [decimal_inj]
  unfold slotOf?
  rcases Int.lt_or_le n 0 with hn | hn
  · rw [readUnsigned_decimal_of_neg hn]
    simp only [reduceCtorEq, false_iff]
    omega
  · obtain ⟨m, rfl⟩ := Int.eq_ofNat_of_zero_le hn
    rw [readUnsigned_decimal (by omega)]
    simp only
    split
    · rw [Option.some_inj]
      omega
    · simp only [reduceCtorEq, false_iff]
      omega

namespace Store

theorem Counters.yearOf?_eq_some_iff {field : String} {y : Int} (hfield : IsUnitField field) :
    yearOf? field = some y ↔ field = decimal y := by
  obtain ⟨n, hmin, hmax, rfl⟩ := hfield
  unfold yearOf?
  rw [readSigned_decimal (by omega) (by omega), decimal_inj]
  exact Option.some_inj

section

variable {σ : Type} {put : σ → String × Count → σ} (get : σ → Option Count) (ok : σ → Prop)
variable (hits : String → Prop) [DecidablePred hits]

theorem getD_get_foldl_toList
    (hput : ∀ s e, ok s → ok (put s e) ∧ get (put s e) = if hits e.1 then some e.2 else get s)
    {hash : Hash} {field : String} (hhits : ∀ f ∈ hash, hits f ↔ f = field)
    {s : σ} (hs : ok s) (hzero : (get s).getD 0 = 0) :
    (get (hash.toList.foldl put s)).getD 0 = hash.getD field 0 := by
  have hentry : ∀ e ∈ hash.toList, hash[e.1]? = some e.2 := by
    rintro ⟨f, count⟩ he
    exact Std.ExtTreeMap.mem_toList_iff_getElem?_eq_some.1 he
  have hmem : ∀ e ∈ hash.toList, e.1 ∈ hash := by
    intro e he
    rw [Std.ExtTreeMap.mem_iff_isSome_getElem?, hentry e he]
    rfl
  -- only one field hits the place, so all entries that hit it have the same count
  rw [get_foldl_put get ok hits hput (hash.getD field 0) _ hs]
  · split
    · rfl
    · next hnone =>
      rw [hzero, Std.ExtTreeMap.getD_eq_getD_getElem?]
      cases hfield : hash[field]? with
      | none => rfl
      | some count =>
        have he := Std.ExtTreeMap.mem_toList_iff_getElem?_eq_some.2 hfield
        exact absurd ⟨_, he, (hhits field (hmem _ he)).2 rfl⟩ hnone
  · intro e he hhit
    rw [Std.ExtTreeMap.getD_eq_getD_getElem?, ← (hhits e.1 (hmem e he)).1 hhit, hentry e he]
    rfl

end

namespace Counters

open Rollup.Time

variable {b : Bucket} {start : Instant} {hash : Hash}

theorem row_eq (hfields : ∀ field ∈ hash, IsUnitField field) :
    row b start hash = (List.range (b.slots start)).map fun k =>
      hash.getD (decimal ((b.firstUnit + k : Nat) : Int)) 0 := by
  have hsize : b.firstUnit + b.slots start ≤ 2 ^ 64 := by
    have := monthLength_le start.date.year start.date.month
    cases b <;> simp only [Bucket.firstUnit, Bucket.slots, Date.daysInMonth] <;> omega
  apply List.ext_getElem
  · rw [row, Row.length_ofFields, List.length_map, List.length_range]
  · intro k hrow hk
    rw [List.length_map, List.length_range] at hk
    have hget : (row b start hash)[k]?.getD 0
        = hash.getD (decimal ((b.firstUnit + k : Nat) : Int)) 0 := by
      apply getD_get_foldl_toList (fun r : List Count => r[k]?) (fun r => k < r.length)
        (fun f => Row.slotOf? (b.slots start) b.firstUnit f = some k)
      · exact Row.getElem?_put
      · intro f hf
        exact Row.slotOf?_eq_some_iff hk hsize (hfields f hf)
      · rw [List.length_replicate]
        exact hk
      · simp [hk]
    rw [List.getElem_map, List.getElem_range, ← hget, List.getElem?_eq_getElem hrow]
    rfl

theorem getElem?_yearsOf_put (years : YearCounts) (entry : String × Count) (y : Int) :
    (yearsOf.put years entry)[y]? = if yearOf? entry.1 = some y then some entry.2 else years[y]? := by
  unfold yearsOf.put
  cases hyear : yearOf? entry.1 with
  | none => simp
  | some year =>
    simp only [getElem?_insert_eq_ite, Option.some_inj]
    by_cases hy : year = y
    · simp [hy]
    · simp [hy, Ne.symm hy]

theorem getD_yearsOf_of_forall {y : Int} {field : String}
    (hfields : ∀ f ∈ hash, yearOf? f = some y ↔ f = field) :
    (yearsOf hash).getD y 0 = hash.getD field 0 := by
  rw [Std.ExtTreeMap.getD_eq_getD_getElem?]
  unfold yearsOf
  apply getD_get_foldl_toList (fun years : YearCounts => years[y]?) (fun _ => True)
    (fun f => yearOf? f = some y)
  · exact fun years e _ => ⟨trivial, getElem?_yearsOf_put years e y⟩
  · exact hfields
  · trivial
  · simp

theorem getD_yearsOf (hfields : ∀ field ∈ hash, IsUnitField field) (y : Int) :
    (yearsOf hash).getD y 0 = hash.getD (decimal y) 0 :=
  getD_yearsOf_of_forall fun f hf => yearOf?_eq_some_iff (hfields f hf)

end Counters

end Store

end Rollup
