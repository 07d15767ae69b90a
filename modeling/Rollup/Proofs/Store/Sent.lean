import Rollup.Proofs.Store.Data
import Rollup.Store.Bench

/-!
This module contains traces: the commands that were sent, with what came of each of them. Which
hashes and which members of sets there are can be read off a trace.
-/

namespace Rollup.Store

/--
A command that was sent, with what came of it.
-/
structure Sent where
  command : Command
  result : Except Failure command.Reply

namespace Sent

def Counts (key : String) : Sent → Prop
  | ⟨.hincrby k _ _, .ok _⟩ => k = key
  | _ => False

def Removes (key : String) : Sent → Prop
  | ⟨.del k, .ok _⟩ => k = key
  | ⟨.batchDel keys, .ok _⟩ => key ∈ keys
  | _ => False

def Records (key member : String) : Sent → Prop
  | ⟨.sadd k m, .ok _⟩ => k = key ∧ m = member
  | _ => False

/--
A member should have been put into the set at a key, but that failed.
-/
def FailsToRecord (key member : String) : Sent → Prop
  | ⟨.sadd k m, .error _⟩ => k = key ∧ m = member
  | _ => False

/--
A member was taken out of the set at a key, if it was in there.
-/
def TakesOut (key member : String) : Sent → Prop
  | ⟨.srem k gone, .ok _⟩ => k = key ∧ member ∈ gone
  | _ => False

def Unrecords (key member : String) (x : Sent) : Prop :=
  x.TakesOut key member ∨ x.Removes key

variable {key member k m : String} {x : Sent}

theorem Counts.command_eq (h : x.Counts key) :
    ∃ field amount, x.command = .hincrby key field amount := by
  unfold Counts at h
  split at h
  · next k field amount _ =>
    subst h
    exact ⟨field, amount, rfl⟩
  · cases h

theorem Records.command_eq (h : x.Records key member) : x.command = .sadd key member := by
  unfold Records at h
  split at h
  · rw [h.1, h.2]
  · cases h

theorem TakesOut.command_eq (h : x.TakesOut key member) :
    ∃ gone, x.command = .srem key gone ∧ member ∈ gone := by
  unfold TakesOut at h
  split at h
  · next k gone _ =>
    obtain ⟨rfl, hgone⟩ := h
    exact ⟨gone, rfl, hgone⟩
  · cases h

theorem Removes.command_eq (h : x.Removes key) :
    x.command = .del key ∨ ∃ keys, x.command = .batchDel keys ∧ key ∈ keys := by
  unfold Removes at h
  split at h
  · subst h
    exact Or.inl rfl
  · next keys _ => exact Or.inr ⟨keys, rfl, h⟩
  · cases h

theorem Counts.not_removes (h : x.Counts key) : ¬x.Removes key := by
  unfold Counts at h
  split at h
  · exact id
  · cases h

theorem Counts.not_records (h : x.Counts key) : ¬x.Records k m := by
  unfold Counts at h
  split at h
  · exact id
  · cases h

theorem Counts.eq_ok (h : x.Counts key) : ∃ reply, x.result = .ok reply := by
  unfold Counts at h
  split at h
  · exact ⟨_, rfl⟩
  · cases h

theorem Records.not_removes (h : x.Records key member) : ¬x.Removes k := by
  unfold Records at h
  split at h
  · exact id
  · cases h

theorem FailsToRecord.not_removes (h : x.FailsToRecord key member) : ¬x.Removes k := by
  unfold FailsToRecord at h
  split at h
  · exact id
  · cases h

theorem FailsToRecord.not_records (h : x.FailsToRecord key member) : ¬x.Records k m := by
  unfold FailsToRecord at h
  split at h
  · exact id
  · cases h

theorem TakesOut.not_removes (h : x.TakesOut key member) : ¬x.Removes k := by
  unfold TakesOut at h
  split at h
  · exact id
  · cases h

theorem TakesOut.not_records (h : x.TakesOut key member) : ¬x.Records k m := by
  unfold TakesOut at h
  split at h
  · exact id
  · cases h

end Sent

/--
Some command of a trace has the property `p`, seen with the trace before it, and no later one has
the property `q`.
-/
def Since (p : List Sent → Sent → Prop) (q : Sent → Prop) (trace : List Sent) : Prop :=
  ∃ earlier x later, trace = earlier ++ x :: later ∧ p earlier x ∧ ∀ y ∈ later, ¬q y

section

variable {p : List Sent → Sent → Prop} {q : Sent → Prop}

@[simp]
theorem not_since_nil : ¬Since p q [] := by
  rintro ⟨earlier, x, later, h, -⟩
  simp at h

theorem since_append_singleton {t : List Sent} {y : Sent} :
    Since p q (t ++ [y]) ↔ p t y ∨ (Since p q t ∧ ¬q y) := by
  constructor
  · rintro ⟨earlier, x, later, h, hp, hq⟩
    -- either the last command is the one with the property, or it is among the later ones
    rcases List.eq_nil_or_concat later with rfl | ⟨between, z, rfl⟩
    · obtain ⟨rfl, hx⟩ := List.append_inj' h rfl
      cases hx
      exact Or.inl hp
    · rw [List.concat_eq_append] at h hq
      rw [← List.cons_append, ← List.append_assoc] at h
      obtain ⟨rfl, hz⟩ := List.append_inj' h rfl
      cases hz
      right
      refine ⟨⟨earlier, x, between, rfl, hp, ?_⟩, ?_⟩
      · intro w hw
        apply hq
        exact List.mem_append_left _ hw
      · apply hq
        simp
  · rintro (hp | ⟨⟨earlier, x, later, rfl, hp, hq⟩, hy⟩)
    · exact ⟨t, y, [], rfl, hp, by simp⟩
    · refine ⟨earlier, x, later ++ [y], by simp, hp, ?_⟩
      intro w hw
      rcases List.mem_append.1 hw with hw | hw
      · exact hq w hw
      · rw [List.mem_singleton.1 hw]
        exact hy

theorem since_singleton {y : Sent} : Since p q [y] ↔ p [] y := by
  have h := since_append_singleton (p := p) (q := q) (y := y) (t := [])
  simpa using h

end

def Recorded (key member : String) : List Sent → Prop :=
  Since (fun _ x => x.Records key member) (·.Unrecords key member)

def Client.traced {σ : Type} (client : Client σ) : Client (σ × List Sent) := fun c s =>
  let (result, after) := client c s.1
  (result, after, s.2 ++ [⟨c, result⟩])

namespace Data

/--
What may come of a command: it fails without any effect, or it does what it does to the data.
-/
def MayGet (c : Command) (d : Data) (result : Except Failure c.Reply) (after : Data) : Prop :=
  ((∃ failure, result = .error failure) ∧ after = d)
    ∨ (result = (send c d).1 ∧ after = (send c d).2)

variable {c : Command} {d after : Data} {result : Except Failure c.Reply}

theorem MayGet.eq_of_ok {reply : c.Reply} (h : MayGet c d result after)
    (hok : result = .ok reply) : (send c d).1 = .ok reply ∧ after = (send c d).2 := by
  rcases h with ⟨⟨failure, herror⟩, -⟩ | ⟨rfl, h⟩
  · rw [herror] at hok
    cases hok
  · exact ⟨hok, h⟩

theorem MayGet.eq_of_error {failure : Failure} (h : MayGet c d result after)
    (herror : result = .error failure) : after = d := by
  rcases h with ⟨-, h⟩ | ⟨hreply, h⟩
  · exact h
  · rw [h, send_of_error (hreply.symm.trans herror)]

theorem MayGet.changed (h : MayGet c d result after) : Changed d c after := by
  rcases h with ⟨-, rfl⟩ | ⟨-, rfl⟩
  · exact .same c
  · exact changed_send c d

theorem mem_hashes_send (c : Command) (d : Data) (key : String) :
    key ∈ (send c d).2.hashes ↔ Sent.Counts key ⟨c, (send c d).1⟩
      ∨ (key ∈ d.hashes ∧ ¬Sent.Removes key ⟨c, (send c d).1⟩) := by
  cases c with
  | hincrby k field amount =>
    unfold send
    cases h : d.hincrby k field amount with
    | error e => simp [Sent.Counts, Sent.Removes, h]
    | ok result =>
      obtain ⟨-, hafter⟩ := hincrby_eq_ok h
      simp [Sent.Counts, Sent.Removes, h, hafter, Std.ExtTreeMap.mem_insert]
  | hgetall k => simp [send, Sent.Counts, Sent.Removes]
  | incrBy k amount =>
    unfold send
    cases h : d.incrBy k amount with
    | error e => simp [Sent.Counts, Sent.Removes, h]
    | ok result =>
      obtain ⟨-, hafter⟩ := incrBy_eq_ok h
      simp [Sent.Counts, Sent.Removes, h, hafter]
  | get k =>
    unfold send
    cases h : d.strings[k]? with
    | none => simp [Sent.Counts, Sent.Removes, h]
    | some value => simp [Sent.Counts, Sent.Removes, h]
  | sadd k m => simp [send, Sent.Counts, Sent.Removes]
  | srem k gone => simp [send, Sent.Counts, Sent.Removes]
  | smembers k => simp [send, Sent.Counts, Sent.Removes]
  | del k =>
    simp only [send, Sent.Counts, Sent.Removes, del_eq_foldl, mem_hashes_foldl_del, false_or,
      List.mem_singleton]
    rw [@eq_comm _ k]
  | batchDel keys => simp [send, Sent.Counts, Sent.Removes, mem_hashes_foldl_del]

theorem mem_members_send (c : Command) (d : Data) (key member : String) :
    member ∈ (send c d).2.members key ↔ Sent.Records key member ⟨c, (send c d).1⟩
      ∨ (member ∈ d.members key ∧ ¬Sent.Unrecords key member ⟨c, (send c d).1⟩) := by
  cases c with
  | hincrby k field amount =>
    unfold send
    cases h : d.hincrby k field amount with
    | error e => simp [Sent.Records, Sent.Unrecords, Sent.TakesOut, Sent.Removes, h]
    | ok result =>
      obtain ⟨-, hafter⟩ := hincrby_eq_ok h
      simp [Sent.Records, Sent.Unrecords, Sent.TakesOut, Sent.Removes, h, hafter, members]
  | hgetall k => simp [send, Sent.Records, Sent.Unrecords, Sent.TakesOut, Sent.Removes]
  | incrBy k amount =>
    unfold send
    cases h : d.incrBy k amount with
    | error e => simp [Sent.Records, Sent.Unrecords, Sent.TakesOut, Sent.Removes, h]
    | ok result =>
      obtain ⟨-, hafter⟩ := incrBy_eq_ok h
      simp [Sent.Records, Sent.Unrecords, Sent.TakesOut, Sent.Removes, h, hafter, members]
  | get k =>
    unfold send
    cases h : d.strings[k]? with
    | none => simp [Sent.Records, Sent.Unrecords, Sent.TakesOut, Sent.Removes, h]
    | some value => simp [Sent.Records, Sent.Unrecords, Sent.TakesOut, Sent.Removes, h]
  | sadd k m =>
    simp only [send, mem_members_sadd, Sent.Records, Sent.Unrecords, Sent.TakesOut, Sent.Removes,
      or_self, not_false_eq_true, and_true]
    rw [@eq_comm _ k, @eq_comm _ m]
  | srem k gone =>
    simp only [send, mem_members_srem, Sent.Records, Sent.Unrecords, Sent.TakesOut, Sent.Removes,
      or_false, false_or]
    rw [@eq_comm _ k]
  | smembers k => simp [send, Sent.Records, Sent.Unrecords, Sent.TakesOut, Sent.Removes]
  | del k =>
    simp only [send, del_eq_foldl, members_foldl_del, List.mem_singleton, Sent.Records,
      Sent.Unrecords, Sent.TakesOut, Sent.Removes, false_or]
    by_cases hk : key = k
    · simp [hk]
    · simp [hk, Ne.symm hk]
  | batchDel keys =>
    simp only [send, members_foldl_del, Sent.Records, Sent.Unrecords, Sent.TakesOut, Sent.Removes,
      false_or]
    by_cases hk : key ∈ keys
    · simp [hk]
    · simp [hk]

namespace MayGet

theorem mem_hashes_iff (h : MayGet c d result after) (key : String) :
    key ∈ after.hashes ↔ Sent.Counts key ⟨c, result⟩
      ∨ (key ∈ d.hashes ∧ ¬Sent.Removes key ⟨c, result⟩) := by
  rcases h with ⟨⟨failure, rfl⟩, rfl⟩ | ⟨rfl, rfl⟩
  · cases c <;> simp [Sent.Counts, Sent.Removes]
  · exact mem_hashes_send c d key

theorem mem_members_iff (h : MayGet c d result after) (key member : String) :
    member ∈ after.members key ↔ Sent.Records key member ⟨c, result⟩
      ∨ (member ∈ d.members key ∧ ¬Sent.Unrecords key member ⟨c, result⟩) := by
  rcases h with ⟨⟨failure, rfl⟩, rfl⟩ | ⟨rfl, rfl⟩
  · cases c <;> simp [Sent.Records, Sent.Unrecords, Sent.TakesOut, Sent.Removes]
  · exact mem_members_send c d key member

variable {key place : String}

theorem stays_unrecorded (h : MayGet c d result after)
    (hbefore : key ∈ d.hashes ∧ key ∉ d.members place)
    (hrest : ¬(Sent.Records place key ⟨c, result⟩ ∨ Sent.Removes key ⟨c, result⟩)) :
    key ∈ after.hashes ∧ key ∉ after.members place := by
  rw [not_or] at hrest
  rw [h.mem_hashes_iff, h.mem_members_iff]
  constructor
  · exact Or.inr ⟨hbefore.1, hrest.2⟩
  · rintro (hrecords | ⟨hmember, -⟩)
    · exact hrest.1 hrecords
    · exact hbefore.2 hmember

theorem not_records_or_removes (h : MayGet c d result after)
    (hafter : key ∈ after.hashes ∧ key ∉ after.members place) :
    ¬(Sent.Records place key ⟨c, result⟩ ∨ Sent.Removes key ⟨c, result⟩) := by
  obtain ⟨hhash, hmember⟩ := hafter
  rintro (hrecords | hremoves)
  · exact hmember ((h.mem_members_iff place key).2 (Or.inl hrecords))
  · rcases (h.mem_hashes_iff key).1 hhash with hcounts | ⟨-, hnot⟩
    · exact hcounts.not_removes hremoves
    · exact hnot hremoves

end MayGet

end Data

/--
A client does to some data what commands do, or lets them fail.
-/
def Client.WorksOn {σ : Type} (client : Client σ) (data : σ → Data) : Prop :=
  ∀ c s, Data.MayGet c (data s) (client c s).1 (data (client c s).2)

theorem Data.worksOn_send : Client.WorksOn Data.send id :=
  fun _ _ => Or.inr ⟨rfl, rfl⟩

theorem Bench.worksOn_send : Client.WorksOn Bench.send Bench.data := by
  intro c bench
  unfold Bench.send
  simp only
  split
  · exact Or.inl ⟨⟨_, rfl⟩, rfl⟩
  · exact Or.inr ⟨rfl, rfl⟩

end Rollup.Store
