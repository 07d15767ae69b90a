import Mathlib.Algebra.BigOperators.Group.List.Basic
import Mathlib.Algebra.Ring.Int.Defs
import Mathlib.Algebra.Ring.Nat
import Rollup.Proofs.KeySpace
import Rollup.Proofs.Store.Data

/-!
This module contains data that grow by additions only: the counts by their amounts, the sets by
their members. The main statement is `Grown.eq_of_perm`: the order of the additions does not matter.
-/

namespace Rollup

namespace Store

/--
Where a store keeps a count.
-/
inductive Place where
  | field (key field : String)
  | string (key : String)
deriving DecidableEq

/--
The amount that a command adds at a place.
-/
def Command.adds? (place : Place) : Command → Option Count
  | .hincrby key field amount => if place = .field key field then some amount else none
  | .incrBy key amount => if place = .string key then some amount else none
  | _ => none

def Touches (commands : List Command) (place : Place) : Prop :=
  ∃ c ∈ commands, (c.adds? place).isSome

/--
Some command counts in the hash at a key.
-/
def Counted (commands : List Command) (key : String) : Prop :=
  ∃ field, Touches commands (.field key field)

theorem Touches.mono {commands more : List Command} {place : Place} (h : Touches commands place)
    (hsub : commands ⊆ more) : Touches more place := by
  obtain ⟨c, hc, hadds⟩ := h
  exact ⟨c, hsub hc, hadds⟩

theorem Counted.mono {commands more : List Command} {key : String} (h : Counted commands key)
    (hsub : commands ⊆ more) : Counted more key := by
  obtain ⟨field, htouches⟩ := h
  exact ⟨field, htouches.mono hsub⟩

theorem touches_append_singleton {commands : List Command} {c : Command} {place : Place} :
    Touches (commands ++ [c]) place ↔ Touches commands place ∨ (c.adds? place).isSome := by
  simp [Touches, or_and_right, exists_or]

theorem counted_append_singleton {commands : List Command} {c : Command} {key : String} :
    Counted (commands ++ [c]) key
      ↔ Counted commands key ∨ ∃ field, (c.adds? (.field key field)).isSome := by
  simp only [Counted, touches_append_singleton, exists_or]

theorem Command.adds?_eq_some {c : Command} {place p : Place} {amount : Count}
    (h : c.adds? place = some amount) : c.adds? p = if p = place then some amount else none := by
  unfold adds? at h ⊢
  split at h
  · split at h
    · cases h
      subst place
      rfl
    · cases h
  · split at h
    · cases h
      subst place
      rfl
    · cases h
  · cases h

namespace Data

variable {d d' d₀ after : Data} {place : Place} {amount value : Count} {key field : String}
variable {keys : KeySpace} {c : Command} {commands sent sent' owed : List Command}

def countAt (d : Data) : Place → Count
  | .field key field => d.count key field
  | .string key => d.strings.getD key 0

def Has (d : Data) : Place → Prop
  | .field key field => field ∈ d.hash key
  | .string key => key ∈ d.strings

/--
The counts have room for the amounts of some commands: in whatever order the amounts for a place are
added, each sum on the way is in range.
-/
def HasRoomFor (d : Data) (commands : List Command) : Prop :=
  ∀ (place : Place) (amounts : List Count),
    amounts.Perm (commands.filterMap (Command.adds? place)) → ∀ n,
      (Count.ofInt? ((d.countAt place).val + ((amounts.take n).map Count.val).sum)).isSome

theorem natAbs_sum_le {bound : Nat} {amounts : List Count}
    (h : ∀ a ∈ amounts, a.val.natAbs ≤ bound) :
    (amounts.map Count.val).sum.natAbs ≤ amounts.length * bound := by
  induction amounts with
  | nil => simp
  | cons a amounts ih =>
    have hfirst := h a List.mem_cons_self
    have hrest := ih fun b hb => h b (List.mem_cons_of_mem _ hb)
    have hsum := Int.natAbs_add_le a.val (amounts.map Count.val).sum
    rw [List.map_cons, List.sum_cons, List.length_cons, Nat.succ_mul]
    omega

/--
There is room for small amounts.
-/
theorem hasRoomFor_of_natAbs_le {bound : Nat}
    (hamounts : ∀ c ∈ commands, ∀ place amount, c.adds? place = some amount →
      amount.val.natAbs ≤ bound)
    (hcounts : ∀ place, (d.countAt place).val.natAbs + commands.length * bound < 2 ^ (63 : Nat)) :
    d.HasRoomFor commands := by
  intro place amounts hperm n
  have hsmall : ∀ a ∈ amounts.take n, a.val.natAbs ≤ bound := by
    intro a ha
    obtain ⟨c, hc, hadds⟩ := List.mem_filterMap.1 (hperm.mem_iff.1 (List.mem_of_mem_take ha))
    exact hamounts c hc place a hadds
  have hlength : (amounts.take n).length ≤ commands.length := by
    rw [List.length_take, hperm.length_eq]
    exact (Nat.min_le_right _ _).trans (List.length_filterMap_le _ _)
  have hsum := natAbs_sum_le hsmall
  have hbound := Nat.mul_le_mul_right bound hlength
  have hcount := hcounts place
  rw [← Bool.not_eq_false, Option.isSome_eq_false_iff, Option.isNone_iff_eq_none,
    Count.ofInt?_eq_none_iff]
  omega

/--
An amount was added at a place.
-/
structure Bumped (place : Place) (amount : Count) (d after : Data) : Prop where
  has : ∀ p, after.Has p ↔ d.Has p ∨ p = place
  count : ∀ p, (after.countAt p).val = (d.countAt p).val + if p = place then amount.val else 0
  hashes : ∀ key, key ∈ after.hashes ↔ key ∈ d.hashes ∨ ∃ field, .field key field = place
  sets : after.sets = d.sets

theorem bumped_hincrby (h : d.hincrby key field amount = .ok (value, after)) :
    Bumped (.field key field) amount d after where
  has := by
    intro p
    cases p with
    | field k f =>
      simp only [Has, hash_hincrby h, Place.field.injEq]
      by_cases hk : k = key
      · subst hk
        rw [if_pos rfl, Std.ExtTreeMap.mem_insert, Std.LawfulEqCmp.compare_eq_iff_eq]
        simp [eq_comm, or_comm]
      · simp [hk]
    | string k => simp [Has, (hincrby_eq_ok h).2]
  count := by
    intro p
    cases p with
    | field k f =>
      simp only [countAt, count_hincrby h, Place.field.injEq]
      split
      · next heq =>
        obtain ⟨rfl, rfl⟩ := heq
        exact val_hincrby h
      · rw [Int.add_zero]
    | string k => simp [countAt, (hincrby_eq_ok h).2]
  hashes := by
    intro k
    rw [(hincrby_eq_ok h).2, Std.ExtTreeMap.mem_insert, Std.LawfulEqCmp.compare_eq_iff_eq]
    simp [eq_comm, or_comm]
  sets := by rw [(hincrby_eq_ok h).2]

theorem bumped_incrBy (h : d.incrBy key amount = .ok (value, after)) :
    Bumped (.string key) amount d after where
  has := by
    intro p
    rw [(incrBy_eq_ok h).2]
    cases p with
    | field k f => simp [Has, hash]
    | string k =>
      simp only [Has, Place.string.injEq]
      rw [Std.ExtTreeMap.mem_insert, Std.LawfulEqCmp.compare_eq_iff_eq, or_comm, eq_comm]
  count := by
    intro p
    obtain ⟨hsum, hafter⟩ := incrBy_eq_ok h
    rw [hafter]
    cases p with
    | field k f => simp [countAt, Data.count, hash]
    | string k =>
      simp only [countAt, Std.ExtTreeMap.getD_eq_getD_getElem?, getElem?_insert_eq_ite,
        Place.string.injEq]
      split
      · next hk =>
        subst hk
        rw [Option.getD_some, Count.val_add? hsum, Std.ExtTreeMap.getD_eq_getD_getElem?]
      · rw [Int.add_zero]
  hashes := by
    rw [(incrBy_eq_ok h).2]
    simp
  sets := by rw [(incrBy_eq_ok h).2]

theorem bumped_send (hc : c.adds? place = some amount)
    (hroom : ((d.countAt place).add? amount).isSome) :
    (∃ reply, (send c d).1 = .ok reply) ∧ Bumped place amount d (send c d).2 := by
  obtain ⟨value, hvalue⟩ := Option.isSome_iff_exists.1 hroom
  unfold Command.adds? at hc
  split at hc
  · next key field amount' =>
    split at hc
    · next hplace =>
      cases hc
      subst hplace
      obtain ⟨after, hincr⟩ : ∃ after, d.hincrby key field amount = .ok (value, after) := by
        simp only [countAt] at hvalue
        simp [hincrby, hvalue]
      simp only [send, hincr]
      exact ⟨⟨value, rfl⟩, bumped_hincrby hincr⟩
    · cases hc
  · next key amount' =>
    split at hc
    · next hplace =>
      cases hc
      subst hplace
      obtain ⟨after, hincr⟩ : ∃ after, d.incrBy key amount = .ok (value, after) := by
        simp only [countAt] at hvalue
        simp [incrBy, hvalue]
      simp only [send, hincr]
      exact ⟨⟨value, rfl⟩, bumped_incrBy hincr⟩
    · cases hc
  · cases hc

/--
What some commands, sent in their order, make of the data, the records of buckets aside: a bucket
that was counted may have been recorded or not.
-/
structure Grown (keys : KeySpace) (sent : List Command) (d₀ d : Data) : Prop where
  has : ∀ place, d.Has place ↔ d₀.Has place ∨ Touches sent place
  count : ∀ place, (d.countAt place).val = (d₀.countAt place).val
    + ((sent.filterMap (Command.adds? place)).map Count.val).sum
  hashes : ∀ key, key ∈ d.hashes ↔ key ∈ d₀.hashes ∨ Counted sent key
  members : ∀ key m, m ∈ d.members key → m ∈ d₀.members key ∨ .sadd key m ∈ sent
    ∨ ∃ name, key = keys.bookkeeping name ∧ keys.IsBucketOf name m ∧ Counted sent m
  kept : ∀ key m, m ∈ d₀.members key ∨ .sadd key m ∈ sent → m ∈ d.members key
  sets : ∀ key, key ∈ d.sets ↔ key ∈ d₀.sets ∨ ∃ m, m ∈ d.members key

theorem mem_sets_of_mem_members {m : String} (h : m ∈ d.members key) : key ∈ d.sets := by
  apply Classical.byContradiction
  intro hkey
  rw [members, Std.ExtTreeMap.getD_eq_fallback hkey] at h
  exact Std.ExtTreeSet.not_mem_empty h

@[simp]
theorem has_sadd {m : String} : (d.sadd key m).Has place ↔ d.Has place := by
  cases place <;> exact Iff.rfl

@[simp]
theorem countAt_sadd {m : String} : (d.sadd key m).countAt place = d.countAt place := by
  cases place <;> rfl

theorem members_of_sets_eq (h : after.sets = d.sets) (k : String) :
    after.members k = d.members k := by
  rw [members, h]
  rfl

namespace Grown

theorem nil (keys : KeySpace) (d : Data) : Grown keys [] d d where
  has := by simp [Touches]
  count := by simp
  hashes := by simp [Counted, Touches]
  members := fun _ _ => Or.inl
  kept := by simp
  sets := by
    intro key
    simp only [iff_self_or]
    rintro ⟨m, hm⟩
    exact mem_sets_of_mem_members hm

theorem bump (h : Grown keys sent d₀ d) (hc : c.adds? place = some amount)
    (hbumped : Bumped place amount d after) : Grown keys (sent ++ [c]) d₀ after where
  has := by
    intro p
    rw [hbumped.has, h.has, touches_append_singleton, Command.adds?_eq_some hc, or_assoc]
    by_cases hp : p = place
    · simp [hp]
    · simp [hp]
  count := by
    intro p
    rw [hbumped.count, h.count, List.filterMap_append, List.map_append, List.sum_append,
      Int.add_assoc, List.filterMap_cons, Command.adds?_eq_some hc]
    by_cases hp : p = place
    · simp [hp]
    · simp [hp]
  hashes := by
    intro key
    rw [hbumped.hashes, h.hashes, counted_append_singleton, or_assoc]
    apply or_congr_right
    apply or_congr_right
    apply exists_congr
    intro field
    rw [Command.adds?_eq_some hc]
    split
    · next hp => simp [hp]
    · next hp => simp [hp]
  members := by
    intro key m hm
    rw [members_of_sets_eq hbumped.sets] at hm
    rcases h.members key m hm with hm | hm | ⟨name, hkey, hm, hcounted⟩
    · exact Or.inl hm
    · exact Or.inr (Or.inl (List.mem_append_left _ hm))
    · exact Or.inr (Or.inr ⟨name, hkey, hm, hcounted.mono (List.subset_append_left _ _)⟩)
  kept := by
    intro key m hm
    rw [members_of_sets_eq hbumped.sets]
    rw [List.mem_append, List.mem_singleton] at hm
    apply h.kept
    rcases hm with hm | hm | rfl
    · exact Or.inl hm
    · exact Or.inr hm
    · cases hc
  sets := by
    intro key
    rw [hbumped.sets, members_of_sets_eq hbumped.sets]
    exact h.sets key

theorem mem_sets_sadd {member : String} (h : Grown keys sent d₀ d) (k : String) :
    k ∈ (d.sadd key member).sets ↔ k ∈ d₀.sets ∨ ∃ m, m ∈ (d.sadd key member).members k := by
  have hsets : k ∈ (d.sadd key member).sets ↔ k ∈ d.sets ∨ k = key := by
    unfold Data.sadd
    rw [Std.ExtTreeMap.mem_insert, Std.LawfulEqCmp.compare_eq_iff_eq, or_comm, eq_comm]
  simp only [hsets, h.sets, mem_members_sadd, exists_or, or_assoc]
  apply or_congr_right
  rw [or_comm]
  apply or_congr_left
  simp

theorem put (h : Grown keys sent d₀ d) (key member : String) :
    Grown keys (sent ++ [.sadd key member]) d₀ (d.sadd key member) where
  has := by
    intro p
    rw [touches_append_singleton, has_sadd, h.has]
    simp [Command.adds?]
  count := by
    intro p
    have hnone : [Command.sadd key member].filterMap (Command.adds? p) = [] := rfl
    rw [List.filterMap_append, hnone, List.append_nil, countAt_sadd, h.count]
  hashes := by
    intro k
    rw [counted_append_singleton]
    simpa [Command.adds?] using h.hashes k
  members := by
    intro k m hm
    rcases mem_members_sadd.1 hm with ⟨rfl, rfl⟩ | hm
    · simp
    rcases h.members k m hm with hm | hm | ⟨name, hkey, hm, hcounted⟩
    · exact Or.inl hm
    · exact Or.inr (Or.inl (List.mem_append_left _ hm))
    · exact Or.inr (Or.inr ⟨name, hkey, hm, hcounted.mono (List.subset_append_left _ _)⟩)
  kept := by
    intro k m hm
    rw [mem_members_sadd]
    rw [List.mem_append, List.mem_singleton, Command.sadd.injEq, ← or_assoc] at hm
    rcases hm with hm | hm
    · exact Or.inr (h.kept k m hm)
    · exact Or.inl hm
  sets := h.mem_sets_sadd

theorem record (h : Grown keys sent d₀ d) {name : String} (hkey : keys.IsBucketOf name key)
    (hcounted : Counted sent key) : Grown keys sent d₀ (d.sadd (keys.bookkeeping name) key) where
  has := h.has
  count := h.count
  hashes := h.hashes
  members := by
    intro k m hm
    rcases mem_members_sadd.1 hm with ⟨rfl, rfl⟩ | hm
    · exact Or.inr (Or.inr ⟨name, rfl, hkey, hcounted⟩)
    · exact h.members k m hm
  kept := by
    intro k m hm
    exact mem_members_sadd.2 (Or.inr (h.kept k m hm))
  sets := h.mem_sets_sadd

theorem members_subset (h : Grown keys sent d₀ d) (h' : Grown keys sent' d₀ d')
    (hperm : sent.Perm sent') (hrecorded : ∀ name key, keys.IsBucketOf name key →
      key ∈ d'.hashes → key ∈ d'.members (keys.bookkeeping name))
    {k m : String} (hm : m ∈ d.members k) : m ∈ d'.members k := by
  rcases h.members k m hm with hm | hm | ⟨name, rfl, hm, hcounted⟩
  · exact h'.kept k m (Or.inl hm)
  · exact h'.kept k m (Or.inr (hperm.mem_iff.1 hm))
  · -- the bucket was counted here too, so it exists, and whoever came first has recorded it
    exact hrecorded name m hm ((h'.hashes m).2 (Or.inr (hcounted.mono hperm.subset)))

/--
The same additions in another order make the same data, if every bucket is recorded in the end.
-/
theorem eq_of_perm (h : Grown keys sent d₀ d) (h' : Grown keys sent' d₀ d')
    (hperm : sent.Perm sent')
    (hrecorded : ∀ name key, keys.IsBucketOf name key →
      key ∈ d.hashes → key ∈ d.members (keys.bookkeeping name))
    (hrecorded' : ∀ name key, keys.IsBucketOf name key →
      key ∈ d'.hashes → key ∈ d'.members (keys.bookkeeping name)) : d = d' := by
  have hhas : ∀ place, d.Has place ↔ d'.Has place := by
    intro place
    rw [h.has, h'.has]
    exact or_congr_right ⟨fun ht => ht.mono hperm.subset, fun ht => ht.mono hperm.symm.subset⟩
  have hcount : ∀ place, d.countAt place = d'.countAt place := by
    intro place
    apply Count.ext
    rw [h.count, h'.count, ((hperm.filterMap _).map _).sum_eq]
  have hmembers : ∀ k, d.members k = d'.members k := by
    intro k
    apply Std.ExtTreeSet.ext_mem
    intro m
    exact ⟨h.members_subset h' hperm hrecorded', h'.members_subset h hperm.symm hrecorded⟩
  apply Data.ext
  case strings =>
    exact eq_of_getD_eq 0 (fun k => hhas (.string k)) fun k => hcount (.string k)
  case hashes =>
    apply eq_of_getD_eq ∅
    · intro k
      rw [h.hashes, h'.hashes]
      exact or_congr_right ⟨fun hk => hk.mono hperm.subset, fun hk => hk.mono hperm.symm.subset⟩
    · intro k
      exact eq_of_getD_eq 0 (fun f => hhas (.field k f)) fun f => hcount (.field k f)
  case sets =>
    apply eq_of_getD_eq ∅
    · intro k
      rw [h.sets, h'.sets, hmembers k]
    · exact hmembers

/--
There is room for what is still to be added.
-/
theorem isSome_add? (h : Grown keys sent d₀ d) (hroom : d₀.HasRoomFor commands)
    (hperm : (sent ++ c :: owed).Perm commands) (hc : c.adds? place = some amount) :
    ((d.countAt place).add? amount).isSome := by
  have hamounts : (sent.filterMap (Command.adds? place) ++ amount
      :: owed.filterMap (Command.adds? place)).Perm (commands.filterMap (Command.adds? place)) := by
    have := hperm.filterMap (Command.adds? place)
    rwa [List.filterMap_append, List.filterMap_cons_some hc] at this
  have hsome := hroom place _ hamounts ((sent.filterMap (Command.adds? place)).length + 1)
  rw [List.take_length_add_append, List.take_succ_cons, List.take_zero, List.map_append,
    List.sum_append, ← Int.add_assoc, ← h.count] at hsome
  unfold Count.add?
  simpa using hsome

end Grown

end Data

end Store

end Rollup
