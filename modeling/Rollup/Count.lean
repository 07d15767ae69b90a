import Rollup.Text.Numeral

/-!
This module contains the 64-bit counts that counters are made of. Their arithmetic is that of the
integers, and a sum outside the range does not exist.
-/

namespace Rollup

-- powers mean the same whatever else is imported
attribute [local instance (high)] instPowNat

structure Count where
  val : Int
  min_le : -2 ^ (63 : Nat) ≤ val
  le_max : val ≤ 2 ^ (63 : Nat) - 1
deriving DecidableEq

namespace Count

theorem ext {a b : Count} (h : a.val = b.val) : a = b := by
  cases a
  cases b
  simp_all

def ofInt? (n : Int) : Option Count :=
  if h : -2 ^ (63 : Nat) ≤ n ∧ n ≤ 2 ^ (63 : Nat) - 1 then some ⟨n, h.1, h.2⟩ else none

theorem ofInt?_val (a : Count) : ofInt? a.val = some a :=
  dif_pos ⟨a.min_le, a.le_max⟩

theorem val_ofInt? {n : Int} {a : Count} (h : ofInt? n = some a) : a.val = n := by
  unfold ofInt? at h
  split at h
  · cases h
    rfl
  · cases h

theorem ofInt?_eq_none_iff {n : Int} :
    ofInt? n = none ↔ n < -2 ^ (63 : Nat) ∨ 2 ^ (63 : Nat) - 1 < n := by
  unfold ofInt?
  split
  · simp only [reduceCtorEq, false_iff]
    omega
  · simp only [true_iff]
    omega

instance : Zero Count := ⟨⟨0, by decide, by decide⟩⟩

@[simp]
theorem val_zero : (0 : Count).val = 0 := rfl

instance : Inhabited Count := ⟨0⟩

def add? (a b : Count) : Option Count :=
  ofInt? (a.val + b.val)

theorem val_add? {a b c : Count} (h : a.add? b = some c) : c.val = a.val + b.val :=
  val_ofInt? h

@[simp]
theorem zero_add? (a : Count) : add? 0 a = some a := by
  unfold add?
  rw [val_zero, Int.zero_add, ofInt?_val]

/--
The sum of counts added one after the other, if no sum on the way leaves the range.
-/
def sum? (counts : List Count) : Option Count :=
  counts.foldlM add? 0

def read (s : String) : Except Text.NumeralError Count :=
  match h : Text.readSigned 64 s with
  | .ok n => .ok ⟨n, (Text.readSigned_mem h).1, (Text.readSigned_mem h).2⟩
  | .error e => .error e

def text (a : Count) : String :=
  Text.decimal a.val

end Count

end Rollup
