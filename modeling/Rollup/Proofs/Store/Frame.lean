import Rollup.Proofs.Store.Sent

/-!
This module contains what a command leaves as it was. The main statement is `Changed.sameAt`: that is
everything at keys that it does not write.
-/

namespace Rollup.Store

def Command.Writes (key : String) : Command → Prop
  | .hincrby k _ _ | .incrBy k _ | .sadd k _ | .srem k _ | .del k => k = key
  | .batchDel keys => key ∈ keys
  | .hgetall _ | .get _ | .smembers _ => False

namespace Data

/--
The same string, hash and set is found at a key afterwards.
-/
structure SameAt (key : String) (d after : Data) : Prop where
  string : after.strings[key]? = d.strings[key]?
  hash : after.hashes[key]? = d.hashes[key]?
  set : after.sets[key]? = d.sets[key]?

variable {d between after : Data} {key k : String} {c : Command}

namespace SameAt

theorem refl (key : String) (d : Data) : d.SameAt key d :=
  ⟨rfl, rfl, rfl⟩

theorem trans (h : d.SameAt key between) (h' : between.SameAt key after) : d.SameAt key after :=
  ⟨h'.string.trans h.string, h'.hash.trans h.hash, h'.set.trans h.set⟩

theorem hash_eq (h : d.SameAt key after) : after.hash key = d.hash key := by
  rw [Data.hash, Data.hash, Std.ExtTreeMap.getD_eq_getD_getElem?, h.hash,
    Std.ExtTreeMap.getD_eq_getD_getElem?]

end SameAt

theorem getElem?_sets_srem (h : k ≠ key) (gone : List String) :
    (d.srem k gone).sets[key]? = d.sets[key]? := by
  unfold srem
  split
  · rfl
  · simp only
    split
    · rw [getElem?_erase_eq_ite, if_neg h.symm]
    · rw [getElem?_insert_eq_ite, if_neg h.symm]

theorem sameAt_foldl_del {keys : List String} (h : key ∉ keys) :
    d.SameAt key (keys.foldl del d) := by
  constructor
  · rw [getElem?_strings_foldl_del, if_neg h]
  · rw [getElem?_hashes_foldl_del, if_neg h]
  · rw [sets_foldl_del, getElem?_foldl_erase, if_neg h]

theorem Changed.sameAt (h : Changed d c after) (hkey : ¬c.Writes key) : d.SameAt key after := by
  cases h with
  | same => exact .refl key d
  | hincrby k field amount value =>
    refine ⟨rfl, ?_, rfl⟩
    simp only
    rw [getElem?_insert_eq_ite, if_neg (Ne.symm hkey)]
  | incrBy k amount value =>
    refine ⟨?_, rfl, rfl⟩
    simp only
    rw [getElem?_insert_eq_ite, if_neg (Ne.symm hkey)]
  | sadd k member =>
    refine ⟨rfl, rfl, ?_⟩
    unfold Data.sadd
    simp only
    rw [getElem?_insert_eq_ite, if_neg (Ne.symm hkey)]
  | srem k gone =>
    refine ⟨?_, ?_, getElem?_sets_srem hkey gone⟩
    · rw [strings_srem]
    · rw [hashes_srem]
  | del k => exact sameAt_foldl_del fun h => hkey (List.mem_singleton.1 h).symm
  | batchDel keys => exact sameAt_foldl_del hkey

end Data

end Rollup.Store
