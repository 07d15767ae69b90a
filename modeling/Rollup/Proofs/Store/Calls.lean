import Rollup.Proofs.Store.Frame
import Rollup.Proofs.Store.Pending

/-!
This module contains what single calls do to the in-process store, whatever calls were made before.
Increments are also given as they are done in place, where the entry that is changed is made before
the sum is checked. The main statement is `failed_send_changes_nothing`.
-/

namespace Rollup.Store

-- powers and sums mean the same whatever else is imported
attribute [local instance (high)] instPowNat Zero.ofOfNat0

namespace Data

section InPlace

/--
Make sure that there is a field, which is zero if it is new, in a hash that may be new as well.
-/
def openField (d : Data) (key field : String) : Data :=
  { d with hashes := d.hashes.insert key ((d.hash key).insertIfNew field 0) }

def writeField (d : Data) (key field : String) (value : Count) : Data :=
  { d with hashes := d.hashes.insert key ((d.hash key).insert field value) }

def openString (d : Data) (key : String) : Data :=
  { d with strings := d.strings.insertIfNew key 0 }

def writeString (d : Data) (key : String) (value : Count) : Data :=
  { d with strings := d.strings.insert key value }

/--
Add to an entry that is there already. It is written only if the sum exists.
-/
def addInPlace (opened : Data) (old amount : Count) (write : Count → Data) :
    Except Failure Count × Data :=
  match old.add? amount with
  | some value => (.ok value, write value)
  | none => (.error overflow, opened)

def sendInPlace : Client Data := fun c d =>
  match c with
  | .hincrby key field amount =>
    let opened := d.openField key field
    addInPlace opened (opened.count key field) amount (opened.writeField key field)
  | .incrBy key amount =>
    let opened := d.openString key
    addInPlace opened (opened.strings.getD key 0) amount (opened.writeString key)
  | c => send c d

variable {d opened : Data} {key field : String} {old amount value : Count} {write : Count → Data}

theorem addInPlace_of_eq_some (h : old.add? amount = some value) :
    addInPlace opened old amount write = (.ok value, write value) := by
  unfold addInPlace
  rw [h]

theorem addInPlace_of_eq_none (h : old.add? amount = none) :
    addInPlace opened old amount write = (.error overflow, opened) := by
  unfold addInPlace
  rw [h]

theorem hash_openField (d : Data) (key field : String) :
    (d.openField key field).hash key = (d.hash key).insertIfNew field 0 :=
  Std.ExtTreeMap.getD_insert_self

theorem getD_insertIfNew_self (m : Std.ExtTreeMap String Count) (k : String) :
    (m.insertIfNew k 0).getD k 0 = m.getD k 0 := by
  rw [Std.ExtTreeMap.getD_eq_getD_getElem?, getElem?_insertIfNew_eq_ite]
  by_cases hk : k ∈ m
  · rw [if_neg fun hnew => hnew.2 hk, Std.ExtTreeMap.getD_eq_getD_getElem?]
  · rw [if_pos ⟨rfl, hk⟩, Std.ExtTreeMap.getD_eq_fallback hk]
    rfl

theorem count_openField (d : Data) (key field : String) :
    (d.openField key field).count key field = d.count key field := by
  rw [count, hash_openField, getD_insertIfNew_self]
  rfl

theorem getD_openString (d : Data) (key : String) :
    (d.openString key).strings.getD key 0 = d.strings.getD key 0 :=
  getD_insertIfNew_self d.strings key

theorem writeField_openField (d : Data) (key field : String) (value : Count) :
    (d.openField key field).writeField key field value = d.writeField key field value := by
  unfold writeField
  rw [hash_openField, insert_insertIfNew]
  unfold openField
  simp only
  rw [insert_insert]

theorem writeString_openString (d : Data) (key : String) (value : Count) :
    (d.openString key).writeString key value = d.writeString key value := by
  unfold writeString openString
  simp only
  rw [insert_insertIfNew]

/--
Only an entry that was there before can be too large or too small for an amount, as zero is not.
-/
theorem mem_of_add?_getD_eq_none {m : Std.ExtTreeMap String Count} {k : String}
    (h : (m.getD k 0).add? amount = none) : k ∈ m := by
  apply Classical.byContradiction
  intro hk
  rw [Std.ExtTreeMap.getD_eq_fallback hk, Count.zero_add?] at h
  cases h

theorem mem_hashes_of_mem_hash (h : field ∈ d.hash key) : key ∈ d.hashes := by
  apply Classical.byContradiction
  intro hkey
  rw [hash, Std.ExtTreeMap.getD_eq_fallback hkey] at h
  exact Std.ExtTreeMap.not_mem_empty h

theorem openField_of_mem (h : field ∈ d.hash key) : d.openField key field = d := by
  unfold openField
  rw [insertIfNew_of_mem h, hash, insert_getD_self (mem_hashes_of_mem_hash h)]

theorem openString_of_mem (h : key ∈ d.strings) : d.openString key = d := by
  unfold openString
  rw [insertIfNew_of_mem h]

theorem send_hincrby_of_add?_eq_some (h : (d.count key field).add? amount = some value) :
    send (.hincrby key field amount) d = (.ok value, d.writeField key field value) := by
  unfold send hincrby
  simp [h, writeField]

theorem send_hincrby_of_add?_eq_none (h : (d.count key field).add? amount = none) :
    send (.hincrby key field amount) d = (.error overflow, d) := by
  unfold send hincrby
  simp [h]

theorem send_incrBy_of_add?_eq_some (h : (d.strings.getD key 0).add? amount = some value) :
    send (.incrBy key amount) d = (.ok value, d.writeString key value) := by
  unfold send incrBy
  simp [h, writeString]

theorem send_incrBy_of_add?_eq_none (h : (d.strings.getD key 0).add? amount = none) :
    send (.incrBy key amount) d = (.error overflow, d) := by
  unfold send incrBy
  simp [h]

/--
An increment that is refused in place has made no entry, so that it may as well check the sum first.
-/
theorem sendInPlace_eq_send (c : Command) (d : Data) : sendInPlace c d = send c d := by
  cases c with
  | hincrby key field amount =>
    unfold sendInPlace
    simp only [count_openField]
    cases hadd : (d.count key field).add? amount with
    | some value =>
      rw [send_hincrby_of_add?_eq_some hadd, addInPlace_of_eq_some hadd, writeField_openField]
      rfl
    | none =>
      rw [send_hincrby_of_add?_eq_none hadd, addInPlace_of_eq_none hadd,
        openField_of_mem (mem_of_add?_getD_eq_none hadd)]
      rfl
  | incrBy key amount =>
    unfold sendInPlace
    simp only [getD_openString]
    cases hadd : (d.strings.getD key 0).add? amount with
    | some value =>
      rw [send_incrBy_of_add?_eq_some hadd, addInPlace_of_eq_some hadd, writeString_openString]
      rfl
    | none =>
      rw [send_incrBy_of_add?_eq_none hadd, addInPlace_of_eq_none hadd,
        openString_of_mem (mem_of_add?_getD_eq_none hadd)]
      rfl
  | _ => rfl

end InPlace

section WithoutEmpty

/--
No hash and no set is kept that holds nothing.
-/
structure WithoutEmpty (d : Data) : Prop where
  hash_ne : ∀ key : String, d.hashes[key]? ≠ some ∅
  set_ne : ∀ key : String, d.sets[key]? ≠ some ∅

variable {d after : Data} {c : Command}

namespace WithoutEmpty

theorem empty : Data.empty.WithoutEmpty := by
  constructor
  case hash_ne =>
    intro key
    simp [Data.empty]
  case set_ne =>
    intro key
    simp [Data.empty]

theorem writeField (h : d.WithoutEmpty) (key field : String) (value : Count) :
    (d.writeField key field value).WithoutEmpty := by
  refine ⟨?_, h.set_ne⟩
  intro k
  unfold Data.writeField
  simp only
  rw [getElem?_insert_eq_ite]
  split
  · exact fun heq => Std.ExtTreeMap.insert_ne_empty (Option.some.inj heq)
  · exact h.hash_ne k

theorem sadd (h : d.WithoutEmpty) (key member : String) : (d.sadd key member).WithoutEmpty := by
  refine ⟨h.hash_ne, ?_⟩
  intro k
  unfold Data.sadd
  simp only
  rw [getElem?_insert_eq_ite]
  split
  · exact fun heq => Std.ExtTreeSet.insert_ne_empty (Option.some.inj heq)
  · exact h.set_ne k

theorem srem (h : d.WithoutEmpty) (key : String) (gone : List String) :
    (d.srem key gone).WithoutEmpty := by
  constructor
  case hash_ne =>
    rw [hashes_srem]
    exact h.hash_ne
  case set_ne =>
    intro k
    unfold Data.srem
    split
    · exact h.set_ne k
    · simp only
      split
      · -- the set that lost its last member is no longer kept
        rw [getElem?_erase_eq_ite]
        split
        · exact (Option.some_ne_none _).symm
        · exact h.set_ne k
      · next hrest =>
        rw [getElem?_insert_eq_ite]
        split
        · exact fun heq => hrest (Std.ExtTreeSet.isEmpty_iff.2 (Option.some.inj heq))
        · exact h.set_ne k

theorem foldl_del (h : d.WithoutEmpty) (keys : List String) :
    (keys.foldl del d).WithoutEmpty := by
  constructor
  case hash_ne =>
    intro k
    rw [getElem?_hashes_foldl_del]
    split
    · exact (Option.some_ne_none _).symm
    · exact h.hash_ne k
  case set_ne =>
    intro k
    rw [sets_foldl_del, getElem?_foldl_erase]
    split
    · exact (Option.some_ne_none _).symm
    · exact h.set_ne k

end WithoutEmpty

theorem Changed.withoutEmpty (h : Changed d c after) (hd : d.WithoutEmpty) :
    after.WithoutEmpty := by
  cases h with
  | same => exact hd
  | hincrby key field amount value => exact hd.writeField key field value
  | incrBy key amount value => exact ⟨hd.hash_ne, hd.set_ne⟩
  | sadd key member => exact hd.sadd key member
  | srem key gone => exact hd.srem key gone
  | del key => exact hd.foldl_del [key]
  | batchDel keys => exact hd.foldl_del keys

end WithoutEmpty

section Answers

/--
Why a store refuses a command that reaches it.
-/
inductive Refuses (d : Data) : Command → Failure → Prop where
  | field {key field : String} {amount : Count}
    (h : (d.count key field).val + amount.val < -2 ^ (63 : Nat)
      ∨ 2 ^ (63 : Nat) - 1 < (d.count key field).val + amount.val) :
    Refuses d (.hincrby key field amount) overflow
  | string {key : String} {amount : Count}
    (h : (d.strings.getD key 0).val + amount.val < -2 ^ (63 : Nat)
      ∨ 2 ^ (63 : Nat) - 1 < (d.strings.getD key 0).val + amount.val) :
    Refuses d (.incrBy key amount) overflow
  | missing {key : String} (h : key ∉ d.strings) : Refuses d (.get key) .notFound

/--
A field has a value afterwards, and everything else is as it was.
-/
structure FieldBecomes (key field : String) (value : Count) (d after : Data) : Prop where
  strings : after.strings = d.strings
  sets : after.sets = d.sets
  keys : ∀ k, k ∈ after.hashes ↔ k = key ∨ k ∈ d.hashes
  fields : ∀ k f, (after.hash k)[f]?
    = if k = key ∧ f = field then some value else (d.hash k)[f]?

/--
A string has a value afterwards, and everything else is as it was.
-/
structure StringBecomes (key : String) (value : Count) (d after : Data) : Prop where
  strings : ∀ k, after.strings[k]? = if k = key then some value else d.strings[k]?
  hashes : after.hashes = d.hashes
  sets : after.sets = d.sets

variable {d after : Data} {c : Command} {failure : Failure} {key field : String}
  {amount value : Count}

theorem send_hincrby_eq_error_iff :
    (send (.hincrby key field amount) d).1 = .error failure
      ↔ d.Refuses (.hincrby key field amount) failure := by
  cases hadd : (d.count key field).add? amount with
  | some value =>
    rw [send_hincrby_of_add?_eq_some hadd]
    constructor
    · rintro ⟨⟩
    · intro hrefuses
      cases hrefuses with
      | field h => cases hadd.symm.trans (Count.ofInt?_eq_none_iff.2 h)
  | none =>
    rw [send_hincrby_of_add?_eq_none hadd]
    constructor
    · rintro ⟨⟩
      exact .field (Count.ofInt?_eq_none_iff.1 hadd)
    · rintro ⟨⟩
      rfl

theorem send_incrBy_eq_error_iff :
    (send (.incrBy key amount) d).1 = .error failure ↔ d.Refuses (.incrBy key amount) failure := by
  cases hadd : (d.strings.getD key 0).add? amount with
  | some value =>
    rw [send_incrBy_of_add?_eq_some hadd]
    constructor
    · rintro ⟨⟩
    · intro hrefuses
      cases hrefuses with
      | string h => cases hadd.symm.trans (Count.ofInt?_eq_none_iff.2 h)
  | none =>
    rw [send_incrBy_of_add?_eq_none hadd]
    constructor
    · rintro ⟨⟩
      exact .string (Count.ofInt?_eq_none_iff.1 hadd)
    · rintro ⟨⟩
      rfl

theorem send_get_eq_error_iff :
    (send (.get key) d).1 = .error failure ↔ d.Refuses (.get key) failure := by
  unfold send
  cases hget : d.strings[key]? with
  | some value =>
    have hkey : key ∈ d.strings := Std.ExtTreeMap.mem_iff_isSome_getElem?.2 (by rw [hget]; rfl)
    simp only [hget]
    constructor
    · rintro ⟨⟩
    · intro hrefuses
      cases hrefuses with
      | missing h => exact absurd hkey h
  | none =>
    simp only [hget]
    constructor
    · rintro ⟨⟩
      refine .missing ?_
      rw [Std.ExtTreeMap.mem_iff_isSome_getElem?, hget]
      exact Bool.false_ne_true
    · rintro ⟨⟩
      rfl

theorem send_eq_error_iff : (send c d).1 = .error failure ↔ d.Refuses c failure := by
  cases c with
  | hincrby key field amount => exact send_hincrby_eq_error_iff
  | incrBy key amount => exact send_incrBy_eq_error_iff
  | get key => exact send_get_eq_error_iff
  | _ =>
    constructor
    · rintro ⟨⟩
    · rintro ⟨⟩

theorem fieldBecomes_writeField (d : Data) (key field : String) (value : Count) :
    FieldBecomes key field value d (d.writeField key field value) := by
  constructor
  case strings => rfl
  case sets => rfl
  case keys =>
    intro k
    unfold writeField
    rw [Std.ExtTreeMap.mem_insert, Std.LawfulEqCmp.compare_eq_iff_eq, eq_comm]
  case fields =>
    intro k f
    by_cases hk : k = key
    · subst hk
      unfold writeField hash
      rw [Std.ExtTreeMap.getD_insert_self, getElem?_insert_eq_ite]
      simp only [true_and]
    · unfold writeField hash
      rw [if_neg fun h => hk h.1, Std.ExtTreeMap.getD_eq_getD_getElem?, getElem?_insert_eq_ite,
        if_neg hk, ← Std.ExtTreeMap.getD_eq_getD_getElem?]

theorem stringBecomes_writeString (d : Data) (key : String) (value : Count) :
    StringBecomes key value d (d.writeString key value) where
  strings k := getElem?_insert_eq_ite d.strings key k value
  hashes := rfl
  sets := rfl

theorem send_hincrby_eq_ok (h : (send (.hincrby key field amount) d).1 = .ok value) :
    value.val = (d.count key field).val + amount.val
      ∧ FieldBecomes key field value d (send (.hincrby key field amount) d).2 := by
  cases hadd : (d.count key field).add? amount with
  | some sum =>
    rw [send_hincrby_of_add?_eq_some hadd] at h ⊢
    cases h
    exact ⟨Count.val_add? hadd, fieldBecomes_writeField d key field value⟩
  | none =>
    rw [send_hincrby_of_add?_eq_none hadd] at h
    cases h

theorem send_incrBy_eq_ok (h : (send (.incrBy key amount) d).1 = .ok value) :
    value.val = (d.strings.getD key 0).val + amount.val
      ∧ StringBecomes key value d (send (.incrBy key amount) d).2 := by
  cases hadd : (d.strings.getD key 0).add? amount with
  | some sum =>
    rw [send_incrBy_of_add?_eq_some hadd] at h ⊢
    cases h
    exact ⟨Count.val_add? hadd, stringBecomes_writeString d key value⟩
  | none =>
    rw [send_incrBy_of_add?_eq_none hadd] at h
    cases h

end Answers

end Data

namespace Bench

/--
What is done with a store: a command is sent, or commands of a kind are made to fail.
-/
inductive Call where
  | send (c : Command)
  | failNext (verb : Verb) (failure : Failure) (times : Nat)

def handle (bench : Bench) : Call → Bench
  | .send c => (send c bench).2
  | .failNext verb failure times => bench.failNext verb failure times

/--
The store after some calls, which was new before them.
-/
def reached (calls : List Call) : Bench :=
  calls.foldl handle empty

variable {bench : Bench} {c : Command} {failure : Failure}

theorem data_send (c : Command) (bench : Bench) :
    (send c bench).2.data = bench.data ∨ (send c bench).2.data = (Data.send c bench.data).2 := by
  cases hpending : bench.pending c.verb with
  | nil => exact Or.inr (send_of_pending_eq_nil hpending).2
  | cons failure rest => exact Or.inl (send_of_pending_eq_cons hpending).2

theorem withoutEmpty_handle (h : bench.data.WithoutEmpty) (call : Call) :
    (bench.handle call).data.WithoutEmpty := by
  cases call with
  | send c =>
    rcases data_send c bench with heq | heq
    · rwa [handle, heq]
    · rw [handle, heq]
      exact (Data.changed_send c bench.data).withoutEmpty h
  | failNext verb failure times => exact h

theorem withoutEmpty_foldl (h : bench.data.WithoutEmpty) (calls : List Call) :
    (calls.foldl handle bench).data.WithoutEmpty := by
  induction calls generalizing bench with
  | nil => exact h
  | cons call calls ih => exact ih (withoutEmpty_handle h call)

theorem withoutEmpty_reached (calls : List Call) : (reached calls).data.WithoutEmpty :=
  withoutEmpty_foldl .empty calls

theorem send_eq_error_iff : (send c bench).1 = .error failure
    ↔ (∃ rest, bench.pending c.verb = failure :: rest)
      ∨ bench.pending c.verb = [] ∧ bench.data.Refuses c failure := by
  cases hpending : bench.pending c.verb with
  | nil =>
    rw [(send_of_pending_eq_nil hpending).1, Data.send_eq_error_iff]
    simp
  | cons first rest =>
    rw [(send_of_pending_eq_cons hpending).1]
    simp

theorem data_send_of_error (h : (send c bench).1 = .error failure) :
    (send c bench).2.data = bench.data := by
  cases hpending : bench.pending c.verb with
  | nil =>
    have ⟨hresult, hdata⟩ := send_of_pending_eq_nil hpending
    rw [hdata, Data.send_of_error (hresult.symm.trans h)]
  | cons first rest => exact (send_of_pending_eq_cons hpending).2

theorem send_of_ok {reply : c.Reply} (h : (send c bench).1 = .ok reply) :
    (Data.send c bench.data).1 = .ok reply
      ∧ (send c bench).2.data = (Data.send c bench.data).2 := by
  cases hpending : bench.pending c.verb with
  | nil =>
    have ⟨hresult, hdata⟩ := send_of_pending_eq_nil hpending
    exact ⟨hresult.symm.trans h, hdata⟩
  | cons first rest => cases (send_of_pending_eq_cons hpending).1.symm.trans h

/--
Whatever was done with a store that was new: it holds no empty hash and no empty set. A command is
refused if a failure is queued for its kind, and otherwise only if the sum of an increment is out of
range or there is no string to get. Then all data are as they were, also if increments make their
entries before they look at the sum. An increment that succeeds answers the exact sum, and sets the
field or string that it names to it and changes nothing else.
-/
theorem failed_send_changes_nothing (calls : List Call) :
    let bench := reached calls
    bench.data.WithoutEmpty
      ∧ (∀ c, Data.sendInPlace c bench.data = Data.send c bench.data)
      ∧ (∀ c failure, (send c bench).1 = .error failure
        ↔ (∃ rest, bench.pending c.verb = failure :: rest)
          ∨ bench.pending c.verb = [] ∧ bench.data.Refuses c failure)
      ∧ (∀ c failure, (send c bench).1 = .error failure → (send c bench).2.data = bench.data)
      ∧ (∀ key field amount (value : Count),
        (send (.hincrby key field amount) bench).1 = .ok value →
          value.val = (bench.data.count key field).val + amount.val
            ∧ Data.FieldBecomes key field value bench.data
              (send (.hincrby key field amount) bench).2.data)
      ∧ ∀ key amount (value : Count), (send (.incrBy key amount) bench).1 = .ok value →
        value.val = (bench.data.strings.getD key 0).val + amount.val
          ∧ Data.StringBecomes key value bench.data (send (.incrBy key amount) bench).2.data := by
  intro bench
  refine ⟨withoutEmpty_reached calls, fun c => Data.sendInPlace_eq_send c bench.data,
    fun _ _ => send_eq_error_iff, fun _ _ => data_send_of_error, ?_, ?_⟩
  · intro key field amount value h
    obtain ⟨hok, hdata⟩ := send_of_ok h
    rw [hdata]
    exact Data.send_hincrby_eq_ok hok
  · intro key amount value h
    obtain ⟨hok, hdata⟩ := send_of_ok h
    rw [hdata]
    exact Data.send_incrBy_eq_ok hok

theorem failed_send_changes_nothing_at_largest :
    let most : Count := ⟨2 ^ (63 : Nat) - 1, by decide, by decide⟩
    let one : Count := ⟨1, by decide, by decide⟩
    let bench := reached [.send (.incrBy "total" most), .failNext .sadd .timeout 1]
    ((send (.incrBy "total" one) bench).1 = .error Data.overflow
        ∧ (send (.incrBy "total" one) bench).2.data = bench.data)
      ∧ (send (.sadd "names" "a") bench).2.data = bench.data
      ∧ Data.FieldBecomes "hours" "7" one bench.data (send (.hincrby "hours" "7" one) bench).2.data
      ∧ Data.StringBecomes "count" most bench.data (send (.incrBy "count" most) bench).2.data := by
  intro most one bench
  obtain ⟨-, -, herror, hsame, hfield, hstring⟩ :=
    failed_send_changes_nothing [.send (.incrBy "total" most), .failNext .sadd .timeout 1]
  have hrefused : (send (.incrBy "total" one) bench).1 = .error Data.overflow :=
    (herror _ _).2 (Or.inr ⟨rfl, .string (by decide +kernel)⟩)
  have hinjected : (send (.sadd "names" "a") bench).1 = .error .timeout :=
    (herror _ _).2 (Or.inl ⟨[], rfl⟩)
  have hnew : (bench.data.count "hours" "7").add? one = some one := by decide +kernel
  have hnone : (bench.data.strings.getD "count" 0).add? most = some most := by decide +kernel
  refine ⟨⟨hrefused, hsame _ _ hrefused⟩, hsame _ _ hinjected, ?_, ?_⟩
  · refine (hfield "hours" "7" one one ?_).2
    rw [(send_of_pending_eq_nil rfl).1, Data.send_hincrby_of_add?_eq_some hnew]
  · refine (hstring "count" most most ?_).2
    rw [(send_of_pending_eq_nil rfl).1, Data.send_incrBy_of_add?_eq_some hnone]

end Bench

end Rollup.Store
