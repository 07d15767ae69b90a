import Rollup.Store.Command
import Std.Data.ExtTreeSet

/-!
This module contains the data of an in-process store and what each command does to it. Strings,
hashes and sets are kept apart, so that one key may hold one of each.
-/

namespace Rollup.Store

structure Data where
  strings : Std.ExtTreeMap String Count
  hashes : Std.ExtTreeMap String Hash
  sets : Std.ExtTreeMap String (Std.ExtTreeSet String)

namespace Data

def empty : Data := ⟨∅, ∅, ∅⟩

theorem ext {a b : Data} (strings : a.strings = b.strings) (hashes : a.hashes = b.hashes)
    (sets : a.sets = b.sets) : a = b := by
  cases a
  cases b
  simp_all

def hash (data : Data) (key : String) : Hash :=
  data.hashes.getD key ∅

def members (data : Data) (key : String) : Std.ExtTreeSet String :=
  data.sets.getD key ∅

def count (data : Data) (key field : String) : Count :=
  (data.hash key).getD field 0

def overflow : Failure :=
  .reported .responseError "increment or decrement would overflow" none

def hincrby (data : Data) (key field : String) (amount : Count) : Except Failure (Count × Data) :=
  match (data.count key field).add? amount with
  | some value =>
    let hash := (data.hash key).insert field value
    .ok (value, { data with hashes := data.hashes.insert key hash })
  | none => .error overflow

def incrBy (data : Data) (key : String) (amount : Count) : Except Failure (Count × Data) :=
  match (data.strings.getD key 0).add? amount with
  | some value => .ok (value, { data with strings := data.strings.insert key value })
  | none => .error overflow

def sadd (data : Data) (key member : String) : Data :=
  { data with sets := data.sets.insert key ((data.members key).insert member) }

/--
Take members out of a set. A set without members is no set.
-/
def srem (data : Data) (key : String) (gone : List String) : Data :=
  match data.sets[key]? with
  | none => data
  | some members =>
    let rest := gone.foldl (fun rest member => rest.erase member) members
    if rest.isEmpty then { data with sets := data.sets.erase key }
    else { data with sets := data.sets.insert key rest }

def del (data : Data) (key : String) : Data where
  strings := data.strings.erase key
  hashes := data.hashes.erase key
  sets := data.sets.erase key

/--
The reply to a command, and the data after it. A refused command changes nothing.
-/
def send : Client Data := fun c data =>
  match c with
  | .hincrby key field amount =>
    match data.hincrby key field amount with
    | .ok (value, data) => (.ok value, data)
    | .error e => (.error e, data)
  | .hgetall key => (.ok (data.hash key), data)
  | .incrBy key amount =>
    match data.incrBy key amount with
    | .ok (value, data) => (.ok value, data)
    | .error e => (.error e, data)
  | .get key =>
    match data.strings[key]? with
    | some value => (.ok value.text, data)
    | none => (.error .notFound, data)
  | .sadd key member => (.ok (), data.sadd key member)
  | .srem key members => (.ok (), data.srem key members)
  | .smembers key => (.ok (data.members key).toList, data)
  | .del key => (.ok (), data.del key)
  | .batchDel keys => (.ok (), keys.foldl del data)

theorem hash_hincrby {data after : Data} {key field : String} {amount value : Count}
    (h : data.hincrby key field amount = .ok (value, after)) (k : String) :
    after.hash k = if k = key then (data.hash key).insert field value else data.hash k := by
  unfold hincrby at h
  split at h
  · cases h
    rw [hash, Std.ExtTreeMap.getD_insert]
    by_cases hk : k = key
    · subst hk
      rw [if_pos Std.ReflCmp.compare_self, if_pos rfl]
    · rw [if_neg (fun heq => hk (Std.LawfulEqCmp.eq_of_compare heq).symm), if_neg hk]
      rfl
  · cases h

theorem count_hincrby {data after : Data} {key field : String} {amount value : Count}
    (h : data.hincrby key field amount = .ok (value, after)) (k f : String) :
    after.count k f = if k = key ∧ f = field then value else data.count k f := by
  rw [count, hash_hincrby h]
  by_cases hk : k = key
  · subst hk
    rw [if_pos rfl, Std.ExtTreeMap.getD_insert]
    by_cases hf : f = field
    · subst hf
      rw [if_pos Std.ReflCmp.compare_self, if_pos ⟨rfl, rfl⟩]
    · rw [if_neg (fun heq => hf (Std.LawfulEqCmp.eq_of_compare heq).symm),
        if_neg (fun both => hf both.2)]
      rfl
  · rw [if_neg hk, if_neg (fun both => hk both.1)]
    rfl

theorem val_hincrby {data after : Data} {key field : String} {amount value : Count}
    (h : data.hincrby key field amount = .ok (value, after)) :
    value.val = (data.count key field).val + amount.val := by
  unfold hincrby at h
  split at h
  · next value' hadd =>
    cases h
    exact Count.val_add? hadd
  · cases h

theorem members_sadd (data : Data) (key member k : String) :
    (data.sadd key member).members k
      = if k = key then (data.members key).insert member else data.members k := by
  unfold sadd members
  rw [Std.ExtTreeMap.getD_insert]
  by_cases h : k = key
  · subst h
    rw [if_pos Std.ReflCmp.compare_self, if_pos rfl]
  · rw [if_neg (fun heq => h (Std.LawfulEqCmp.eq_of_compare heq).symm), if_neg h]

theorem mem_members_sadd {data : Data} {key member k m : String} :
    m ∈ (data.sadd key member).members k ↔ (k = key ∧ m = member) ∨ m ∈ data.members k := by
  rw [members_sadd]
  split
  · next h =>
    subst h
    rw [Std.ExtTreeSet.mem_insert, Std.LawfulEqCmp.compare_eq_iff_eq]
    constructor
    · rintro (rfl | hm)
      · exact Or.inl ⟨rfl, rfl⟩
      · exact Or.inr hm
    · rintro (⟨_, rfl⟩ | hm)
      · exact Or.inl rfl
      · exact Or.inr hm
  · next h =>
    constructor
    · exact Or.inr
    · rintro (⟨hk, _⟩ | hm)
      · exact absurd hk h
      · exact hm

theorem mem_foldl_erase {members : Std.ExtTreeSet String} {gone : List String} {m : String} :
    m ∈ gone.foldl (fun rest member => rest.erase member) members ↔ m ∈ members ∧ m ∉ gone := by
  induction gone generalizing members with
  | nil => simp
  | cons g gone ih =>
    rw [List.foldl_cons, ih, Std.ExtTreeSet.mem_erase, List.mem_cons, not_or, ne_eq,
      Std.LawfulEqCmp.compare_eq_iff_eq]
    constructor
    · rintro ⟨⟨hg, hm⟩, hr⟩
      exact ⟨hm, fun h => hg h.symm, hr⟩
    · rintro ⟨hm, hg, hr⟩
      exact ⟨⟨fun h => hg h.symm, hm⟩, hr⟩

theorem mem_members_srem {data : Data} {key k m : String} {gone : List String} :
    m ∈ (data.srem key gone).members k ↔ m ∈ data.members k ∧ ¬(k = key ∧ m ∈ gone) := by
  unfold srem
  split
  · next hnone =>
    constructor
    · intro hm
      refine ⟨hm, ?_⟩
      rintro ⟨rfl, _⟩
      rw [members, Std.ExtTreeMap.getD_eq_getD_getElem?, hnone] at hm
      exact Std.ExtTreeSet.not_mem_empty hm
    · exact And.left
  · next members hsome =>
    have hmembers : data.members key = members := by
      rw [Data.members, Std.ExtTreeMap.getD_eq_getD_getElem?, hsome, Option.getD_some]
    have hrest : (if (gone.foldl (fun rest member => rest.erase member) members).isEmpty then
          { data with sets := data.sets.erase key }
        else
          { data with
            sets := data.sets.insert key
              (gone.foldl (fun rest member => rest.erase member) members) } : Data).members k
        = if k = key then gone.foldl (fun rest member => rest.erase member) members
          else data.members k := by
      split
      · next hempty =>
        rw [Data.members, Std.ExtTreeMap.getD_erase]
        by_cases hk : k = key
        · subst hk
          rw [if_pos Std.ReflCmp.compare_self, if_pos rfl]
          exact (Std.ExtTreeSet.isEmpty_iff.1 hempty).symm
        · rw [if_neg (fun heq => hk (Std.LawfulEqCmp.eq_of_compare heq).symm), if_neg hk]
          rfl
      · rw [Data.members, Std.ExtTreeMap.getD_insert]
        by_cases hk : k = key
        · subst hk
          rw [if_pos Std.ReflCmp.compare_self, if_pos rfl]
        · rw [if_neg (fun heq => hk (Std.LawfulEqCmp.eq_of_compare heq).symm), if_neg hk]
          rfl
    simp only
    rw [hrest]
    by_cases hk : k = key
    · subst hk
      rw [if_pos rfl, mem_foldl_erase, hmembers]
      simp
    · rw [if_neg hk]
      simp [hk]

theorem send_of_error {c : Command} {data : Data} {failure : Failure}
    (h : (send c data).1 = .error failure) : (send c data).2 = data := by
  cases c with
  | hincrby key field amount =>
    cases hc : data.hincrby key field amount with
    | ok result => simp [send, hc] at h
    | error e => simp [send, hc]
  | incrBy key amount =>
    cases hc : data.incrBy key amount with
    | ok result => simp [send, hc] at h
    | error e => simp [send, hc]
  | get key =>
    cases hc : data.strings[key]? with
    | some value => simp [send, hc]
    | none => simp [send, hc]
  | hgetall key => rfl
  | smembers key => rfl
  | sadd key member => cases h
  | srem key members => cases h
  | del key => cases h
  | batchDel keys => cases h

/--
The keys that hold something, in order. A key is listed once for each kind of value that it holds.
-/
def keys (data : Data) : List String :=
  (data.strings.keys ++ data.hashes.keys ++ data.sets.keys).mergeSort

end Data

end Rollup.Store
