import Rollup.Proofs.Map
import Rollup.Store.Data

/-!
This module contains the look-ups in the data of a store after each command that changes them.
-/

namespace Rollup.Store.Data

variable {data after : Data} {key field k m : String} {amount value : Count}

theorem hincrby_eq_ok (h : data.hincrby key field amount = .ok (value, after)) :
    (data.count key field).add? amount = some value
      ∧ after = { data with
        hashes := data.hashes.insert key ((data.hash key).insert field value) } := by
  unfold hincrby at h
  split at h
  · next hadd =>
    cases h
    exact ⟨hadd, rfl⟩
  · cases h

theorem hincrby_of_send_eq_ok (h : (send (.hincrby key field amount) data).1 = .ok value) :
    ∃ after, data.hincrby key field amount = .ok (value, after) := by
  unfold send at h
  cases hincr : data.hincrby key field amount with
  | ok result =>
    simp only [hincr] at h
    cases h
    exact ⟨result.2, rfl⟩
  | error e => simp [hincr] at h

theorem incrBy_eq_ok (h : data.incrBy key amount = .ok (value, after)) :
    (data.strings.getD key 0).add? amount = some value
      ∧ after = { data with strings := data.strings.insert key value } := by
  unfold incrBy at h
  split at h
  · next hadd =>
    cases h
    exact ⟨hadd, rfl⟩
  · cases h

theorem incrBy_of_send_eq_ok (h : (send (.incrBy key amount) data).1 = .ok value) :
    ∃ after, data.incrBy key amount = .ok (value, after) := by
  unfold send at h
  cases hincr : data.incrBy key amount with
  | ok result =>
    simp only [hincr] at h
    cases h
    exact ⟨result.2, rfl⟩
  | error e => simp [hincr] at h

theorem mem_hashes_of_count_ne_zero (field : String) (h : (data.count key field).val ≠ 0) :
    key ∈ data.hashes := by
  apply Classical.byContradiction
  intro hmem
  apply h
  simp [count, hash, Std.ExtTreeMap.getD_eq_fallback hmem]

@[simp]
theorem strings_sadd : (data.sadd key m).strings = data.strings := rfl

@[simp]
theorem hashes_sadd : (data.sadd key m).hashes = data.hashes := rfl

@[simp]
theorem strings_srem (gone : List String) : (data.srem key gone).strings = data.strings := by
  unfold srem
  split
  · rfl
  · simp only
    split <;> rfl

@[simp]
theorem hashes_srem (gone : List String) : (data.srem key gone).hashes = data.hashes := by
  unfold srem
  split
  · rfl
  · simp only
    split <;> rfl

theorem mem_sets_srem {gone : List String} (h : key ∈ (data.srem key gone).sets) :
    ∃ m ∈ data.members key, m ∉ gone := by
  unfold srem at h
  split at h
  · next hnone =>
    rw [Std.ExtTreeMap.mem_iff_isSome_getElem?, hnone] at h
    cases h
  · next members hsome =>
    have hmembers : data.members key = members := by
      rw [Data.members, Std.ExtTreeMap.getD_eq_getD_getElem?, hsome, Option.getD_some]
    rw [hmembers]
    simp only at h
    split at h
    · rw [Std.ExtTreeMap.mem_erase] at h
      exact absurd Std.ReflCmp.compare_self h.1
    · next hempty =>
      rw [Std.ExtTreeSet.isEmpty_iff, Std.ExtTreeSet.eq_empty_iff_forall_not_mem] at hempty
      obtain ⟨m, hm⟩ := Classical.not_forall.1 hempty
      exact ⟨m, mem_foldl_erase.1 (Classical.not_not.1 hm)⟩

theorem del_eq_foldl : data.del key = [key].foldl del data := rfl

theorem strings_foldl_del (keys : List String) :
    (keys.foldl del data).strings = keys.foldl (fun m k => m.erase k) data.strings := by
  induction keys generalizing data with
  | nil => rfl
  | cons key keys ih => exact ih

theorem hashes_foldl_del (keys : List String) :
    (keys.foldl del data).hashes = keys.foldl (fun m k => m.erase k) data.hashes := by
  induction keys generalizing data with
  | nil => rfl
  | cons key keys ih => exact ih

theorem sets_foldl_del (keys : List String) :
    (keys.foldl del data).sets = keys.foldl (fun m k => m.erase k) data.sets := by
  induction keys generalizing data with
  | nil => rfl
  | cons key keys ih => exact ih

theorem getElem?_strings_foldl_del (keys : List String) (k : String) :
    (keys.foldl del data).strings[k]? = if k ∈ keys then none else data.strings[k]? := by
  rw [strings_foldl_del, getElem?_foldl_erase]

theorem getElem?_hashes_foldl_del (keys : List String) (k : String) :
    (keys.foldl del data).hashes[k]? = if k ∈ keys then none else data.hashes[k]? := by
  rw [hashes_foldl_del, getElem?_foldl_erase]

theorem members_foldl_del (keys : List String) (k : String) :
    (keys.foldl del data).members k = if k ∈ keys then ∅ else data.members k := by
  rw [members, Std.ExtTreeMap.getD_eq_getD_getElem?, sets_foldl_del, getElem?_foldl_erase, members,
    Std.ExtTreeMap.getD_eq_getD_getElem?]
  split <;> rfl

theorem mem_hashes_foldl_del (keys : List String) (k : String) :
    k ∈ (keys.foldl del data).hashes ↔ k ∈ data.hashes ∧ k ∉ keys := by
  rw [hashes_foldl_del, mem_foldl_erase_iff]

theorem mem_strings_foldl_del (keys : List String) (k : String) :
    k ∈ (keys.foldl del data).strings ↔ k ∈ data.strings ∧ k ∉ keys := by
  rw [strings_foldl_del, mem_foldl_erase_iff]

theorem mem_sets_foldl_del (keys : List String) (k : String) :
    k ∈ (keys.foldl del data).sets ↔ k ∈ data.sets ∧ k ∉ keys := by
  rw [sets_foldl_del, mem_foldl_erase_iff]

theorem mem_sets_of_mem_srem {gone : List String} (h : k ∈ (data.srem key gone).sets) :
    k ∈ data.sets := by
  unfold srem at h
  split at h
  · exact h
  · next members hsome =>
    simp only at h
    split at h
    · exact Std.ExtTreeMap.mem_of_mem_erase h
    · rw [Std.ExtTreeMap.mem_insert, Std.LawfulEqCmp.compare_eq_iff_eq] at h
      rcases h with rfl | h
      · rw [Std.ExtTreeMap.mem_iff_isSome_getElem?, hsome]
        rfl
      · exact h

/--
What a command can make of some data. Only a command that succeeds changes anything.
-/
inductive Changed (d : Data) : Command → Data → Prop where
  | same (c : Command) : Changed d c d
  | hincrby (key field : String) (amount value : Count) :
    Changed d (.hincrby key field amount)
      { d with hashes := d.hashes.insert key ((d.hash key).insert field value) }
  | incrBy (key : String) (amount value : Count) :
    Changed d (.incrBy key amount) { d with strings := d.strings.insert key value }
  | sadd (key member : String) : Changed d (.sadd key member) (d.sadd key member)
  | srem (key : String) (gone : List String) : Changed d (.srem key gone) (d.srem key gone)
  | del (key : String) : Changed d (.del key) ([key].foldl Data.del d)
  | batchDel (keys : List String) : Changed d (.batchDel keys) (keys.foldl Data.del d)

theorem changed_send (c : Command) (d : Data) : Changed d c (send c d).2 := by
  unfold send
  cases c with
  | hincrby key field amount =>
    cases h : d.hincrby key field amount with
    | ok result =>
      obtain ⟨value, after⟩ := result
      obtain ⟨-, rfl⟩ := hincrby_eq_ok h
      simp only [h]
      exact .hincrby key field amount value
    | error e =>
      simp only [h]
      exact .same _
  | incrBy key amount =>
    cases h : d.incrBy key amount with
    | ok result =>
      obtain ⟨value, after⟩ := result
      obtain ⟨-, rfl⟩ := incrBy_eq_ok h
      simp only [h]
      exact .incrBy key amount value
    | error e =>
      simp only [h]
      exact .same _
  | get key =>
    cases h : d.strings[key]? <;> simp only [h]
    · exact .same _
    · exact .same _
  | hgetall key => exact .same _
  | smembers key => exact .same _
  | sadd key m => exact .sadd key m
  | srem key gone => exact .srem key gone
  | del key => exact .del key
  | batchDel keys => exact .batchDel keys

theorem Changed.mem_strings {c : Command} (h : Changed data c after) (hk : k ∈ after.strings) :
    k ∈ data.strings ∨ ∃ amount, c = .incrBy k amount := by
  cases h with
  | same => exact Or.inl hk
  | hincrby => exact Or.inl hk
  | incrBy key amount value =>
    rw [Std.ExtTreeMap.mem_insert, Std.LawfulEqCmp.compare_eq_iff_eq] at hk
    rcases hk with rfl | hk
    · exact Or.inr ⟨amount, rfl⟩
    · exact Or.inl hk
  | sadd => exact Or.inl hk
  | srem key gone =>
    rw [strings_srem] at hk
    exact Or.inl hk
  | del key => exact Or.inl ((mem_strings_foldl_del _ k).1 hk).1
  | batchDel keys => exact Or.inl ((mem_strings_foldl_del _ k).1 hk).1

theorem Changed.mem_sets {c : Command} (h : Changed data c after) (hk : k ∈ after.sets) :
    k ∈ data.sets ∨ ∃ m, c = .sadd k m := by
  cases h with
  | same => exact Or.inl hk
  | hincrby => exact Or.inl hk
  | incrBy => exact Or.inl hk
  | sadd key m =>
    unfold Data.sadd at hk
    rw [Std.ExtTreeMap.mem_insert, Std.LawfulEqCmp.compare_eq_iff_eq] at hk
    rcases hk with rfl | hk
    · exact Or.inr ⟨m, rfl⟩
    · exact Or.inl hk
  | srem key gone => exact Or.inl (mem_sets_of_mem_srem hk)
  | del key => exact Or.inl ((mem_sets_foldl_del _ k).1 hk).1
  | batchDel keys => exact Or.inl ((mem_sets_foldl_del _ k).1 hk).1

end Rollup.Store.Data
