import Std.Data.ExtTreeMap
import Std.Data.ExtTreeSet

/-!
This module contains look-ups in ordered maps and sets whose order tells all keys apart, stated with
equality of the keys.
-/

namespace Rollup

variable {κ ν : Type} [Ord κ] [Std.TransOrd κ] [Std.LawfulEqOrd κ]

@[simp]
theorem getElem?_insert_eq_ite [DecidableEq κ] (m : Std.ExtTreeMap κ ν) (k a : κ) (v : ν) :
    (m.insert k v)[a]? = if a = k then some v else m[a]? := by
  rw [Std.ExtTreeMap.getElem?_insert]
  simp only [Std.LawfulEqCmp.compare_eq_iff_eq, @eq_comm _ a k]

@[simp]
theorem getElem?_erase_eq_ite [DecidableEq κ] (m : Std.ExtTreeMap κ ν) (k a : κ) :
    (m.erase k)[a]? = if a = k then none else m[a]? := by
  rw [Std.ExtTreeMap.getElem?_erase]
  simp only [Std.LawfulEqCmp.compare_eq_iff_eq, @eq_comm _ a k]

theorem erase_of_not_mem [DecidableEq κ] {m : Std.ExtTreeMap κ ν} {k : κ} (h : k ∉ m) :
    m.erase k = m := by
  apply Std.ExtTreeMap.ext_getElem?
  intro a
  rw [getElem?_erase_eq_ite]
  split
  · next ha => rw [ha, Std.ExtTreeMap.getElem?_eq_none h]
  · rfl

theorem insert_getD_self [DecidableEq κ] {m : Std.ExtTreeMap κ ν} {k : κ} (h : k ∈ m)
    (fallback : ν) :
    m.insert k (m.getD k fallback) = m := by
  apply Std.ExtTreeMap.ext_getElem?
  intro a
  rw [getElem?_insert_eq_ite]
  split
  · next ha => rw [ha, Std.ExtTreeMap.getElem?_eq_some_getD h]
  · rfl

theorem insert_insert [DecidableEq κ] (m : Std.ExtTreeMap κ ν) (k : κ) (v w : ν) :
    (m.insert k v).insert k w = m.insert k w := by
  apply Std.ExtTreeMap.ext_getElem?
  intro a
  simp only [getElem?_insert_eq_ite]
  split <;> rfl

theorem getElem?_insertIfNew_eq_ite [DecidableEq κ] (m : Std.ExtTreeMap κ ν) (k a : κ) (v : ν) :
    (m.insertIfNew k v)[a]? = if a = k ∧ k ∉ m then some v else m[a]? := by
  rw [Std.ExtTreeMap.getElem?_insertIfNew]
  simp only [Std.LawfulEqCmp.compare_eq_iff_eq, @eq_comm _ a k]

theorem insertIfNew_of_mem [DecidableEq κ] {m : Std.ExtTreeMap κ ν} {k : κ} (h : k ∈ m) (v : ν) :
    m.insertIfNew k v = m := by
  apply Std.ExtTreeMap.ext_getElem?
  intro a
  rw [getElem?_insertIfNew_eq_ite, if_neg fun hnew => hnew.2 h]

theorem insert_insertIfNew [DecidableEq κ] (m : Std.ExtTreeMap κ ν) (k : κ) (v w : ν) :
    (m.insertIfNew k v).insert k w = m.insert k w := by
  apply Std.ExtTreeMap.ext_getElem?
  intro a
  rw [getElem?_insert_eq_ite, getElem?_insert_eq_ite, getElem?_insertIfNew_eq_ite]
  split
  · rfl
  · next ha => rw [if_neg fun hnew => ha hnew.1]

theorem getElem?_foldl_erase [DecidableEq κ] (gone : List κ) (m : Std.ExtTreeMap κ ν) (a : κ) :
    (gone.foldl (fun m k => m.erase k) m)[a]? = if a ∈ gone then none else m[a]? := by
  induction gone generalizing m with
  | nil => simp
  | cons k gone ih =>
    rw [List.foldl_cons, ih, getElem?_erase_eq_ite]
    by_cases h : a = k
    · simp [h]
    · simp [h]

omit [Std.LawfulEqOrd κ] in
theorem mem_iff_of_getElem?_eq_ite {m m' : Std.ExtTreeMap κ ν} {k : κ} {gone : Prop} [Decidable gone]
    (h : m'[k]? = if gone then none else m[k]?) : k ∈ m' ↔ k ∈ m ∧ ¬gone := by
  rw [Std.ExtTreeMap.mem_iff_isSome_getElem?, Std.ExtTreeMap.mem_iff_isSome_getElem?, h]
  by_cases hgone : gone
  · simp [hgone]
  · simp [hgone]

theorem mem_foldl_erase_iff [DecidableEq κ] (gone : List κ) (m : Std.ExtTreeMap κ ν) (a : κ) :
    a ∈ gone.foldl (fun m k => m.erase k) m ↔ a ∈ m ∧ a ∉ gone :=
  mem_iff_of_getElem?_eq_ite (getElem?_foldl_erase gone m a)

/--
Maps are the same if they have the same keys and nobody can tell them apart by looking up values,
with some fallback where there is none.
-/
theorem eq_of_getD_eq {m m' : Std.ExtTreeMap κ ν} (fallback : ν) (hmem : ∀ k, k ∈ m ↔ k ∈ m')
    (hvalue : ∀ k, m.getD k fallback = m'.getD k fallback) : m = m' := by
  apply Std.ExtTreeMap.ext_getElem?
  intro k
  by_cases hk : k ∈ m
  · rw [Std.ExtTreeMap.getElem?_eq_some_getD hk,
      Std.ExtTreeMap.getElem?_eq_some_getD ((hmem k).1 hk), hvalue k]
  · rw [Std.ExtTreeMap.getElem?_eq_none hk,
      Std.ExtTreeMap.getElem?_eq_none fun h => hk ((hmem k).2 h)]

@[simp]
theorem mem_insert_iff_eq_or (s : Std.ExtTreeSet κ) (k a : κ) :
    a ∈ s.insert k ↔ a = k ∨ a ∈ s := by
  rw [Std.ExtTreeSet.mem_insert, Std.LawfulEqCmp.compare_eq_iff_eq, eq_comm]

end Rollup
