import Rollup.Count
import Rollup.Text.Numeral

/-!
This module contains the rows of counts that range queries put together: expanding the fields of a
bucket into one count per slot, and cutting a piece out of consecutive rows.
-/

namespace Rollup.Row

open Rollup.Text

/--
The slot, of `size`, that a field denotes. The unit `firstUnit` has slot 0.
-/
def slotOf? (size firstUnit : Nat) (field : String) : Option Nat :=
  match readUnsigned 64 field with
  | .error _ => none
  | .ok n => if firstUnit ≤ n ∧ n - firstUnit < size then some (n - firstUnit) else none

/--
One count per slot. Slots that no field denotes are zero, and fields that denote none are dropped.
-/
def ofFields (size firstUnit : Nat) (fields : List (String × Count)) : List Count :=
  fields.foldl put (List.replicate size 0)
where
  put (row : List Count) (entry : String × Count) : List Count :=
    match slotOf? size firstUnit entry.1 with
    | some slot => row.set slot entry.2
    | none => row

def dropped (size firstUnit : Nat) (fields : List (String × Count)) : Nat :=
  fields.countP fun entry => (slotOf? size firstUnit entry.1).isNone

theorem length_ofFields (size firstUnit : Nat) (fields : List (String × Count)) :
    (ofFields size firstUnit fields).length = size := by
  suffices h : ∀ row : List Count,
      (fields.foldl (ofFields.put size firstUnit) row).length = row.length by
    rw [ofFields, h, List.length_replicate]
  induction fields with
  | nil => exact fun _ => rfl
  | cons entry fields ih =>
    intro row
    rw [List.foldl_cons, ih]
    unfold ofFields.put
    split
    · exact List.length_set
    · rfl

/--
The `len` counts from position `skip` of consecutive rows. Past the end of the rows there are zeros.
-/
def cut (rows : List (List Count)) (skip len : Nat) : List Count :=
  let counts := (rows.flatten.drop skip).take len
  counts ++ List.replicate (len - counts.length) 0

theorem length_cut (rows : List (List Count)) (skip len : Nat) :
    (cut rows skip len).length = len := by
  simp only [cut, List.length_append, List.length_replicate, List.length_take]
  omega

end Rollup.Row
