import Rollup.Proofs.Store.Served

/-!
This module contains stores whose replies may get lost: a command may fail, or take effect and still
be answered with a failure that may pass, so that it is sent again. The main statement is
`does_of_repeatable`: a command that changes nothing when it is repeated is done once it succeeds.
-/

namespace Rollup.Store

open Rollup.Retry

namespace Data

variable {d : Data}

/--
A command that gets the same reply and leaves the same data when it is sent once more.
-/
def Repeatable (c : Command) : Prop :=
  ∀ d, send c (send c d).2 = send c d

theorem foldl_del_foldl_del (keys : List String) :
    keys.foldl del (keys.foldl del d) = keys.foldl del d := by
  apply ext
  · apply Std.ExtTreeMap.ext_getElem?
    intro k
    rw [getElem?_strings_foldl_del, getElem?_strings_foldl_del]
    split <;> rfl
  · apply Std.ExtTreeMap.ext_getElem?
    intro k
    rw [getElem?_hashes_foldl_del, getElem?_hashes_foldl_del]
    split <;> rfl
  · apply Std.ExtTreeMap.ext_getElem?
    intro k
    rw [sets_foldl_del, getElem?_foldl_erase, sets_foldl_del, getElem?_foldl_erase]
    split <;> rfl

theorem srem_of_eq_none {key : String} (h : d.sets[key]? = none) (gone : List String) :
    d.srem key gone = d := by
  unfold srem
  rw [h]

theorem srem_of_eq_some {key : String} {members rest : Std.ExtTreeSet String} {gone : List String}
    (h : d.sets[key]? = some members)
    (hrest : gone.foldl (fun rest member => rest.erase member) members = rest) :
    d.srem key gone = if rest.isEmpty then { d with sets := d.sets.erase key }
      else { d with sets := d.sets.insert key rest } := by
  unfold srem
  rw [h]
  simp only [hrest]

theorem srem_srem (key : String) (gone : List String) :
    (d.srem key gone).srem key gone = d.srem key gone := by
  cases hset : d.sets[key]? with
  | none => rw [srem_of_eq_none hset, srem_of_eq_none hset]
  | some members =>
    obtain ⟨rest, hrest⟩ : ∃ rest, gone.foldl (fun rest member => rest.erase member) members = rest :=
      ⟨_, rfl⟩
    have hagain : gone.foldl (fun rest member => rest.erase member) rest = rest := by
      apply Std.ExtTreeSet.ext_mem
      intro member
      rw [← hrest, mem_foldl_erase, mem_foldl_erase, and_assoc, and_self]
    rw [srem_of_eq_some hset hrest]
    split
    · apply srem_of_eq_none
      simp
    · next hempty =>
      rw [srem_of_eq_some (by simp) hagain, if_neg hempty]
      apply ext
      · rfl
      · rfl
      · apply Std.ExtTreeMap.ext_getElem?
        intro k
        simp only [getElem?_insert_eq_ite]
        split <;> rfl

theorem repeatable_of_maySend_reset {keys : KeySpace} {name : String} {c : Command}
    (h : Counters.MaySend keys (.reset name) c) : Repeatable c := by
  intro d
  rcases h with rfl | rfl | ⟨buckets, rfl | rfl⟩ | rfl
  · exact congrArg (Except.ok (), ·) (foldl_del_foldl_del [keys.total name])
  · rfl
  · exact congrArg (Except.ok (), ·) (foldl_del_foldl_del buckets)
  · exact congrArg (Except.ok (), ·) (srem_srem _ _)
  · exact congrArg (Except.ok (), ·) (srem_srem _ _)

end Data

/--
What becomes of a command on its way to a store and back.
-/
inductive Fate where
  | arrives
  -- it fails before it takes effect
  | fails (failure : Failure)
  -- it takes effect, but its reply is lost
  | loses (failure : Failure) (passing : failure.IsTransient)

def Fate.IsLost : Fate → Prop
  | loses .. => True
  | _ => False

/--
A store at the end of a line that may lose replies, with all commands that were sent to it and what
came of them there.
-/
structure Line where
  data : Data
  log : List Sent

namespace Line

def empty : Line := ⟨.empty, []⟩

/--
Send a command, whose fate is told by the number of commands sent before it.
-/
def send (fates : Nat → Fate) : Client Line := fun c line =>
  let (result, data) := Data.send c line.data
  match fates line.log.length with
  | .arrives => (result, ⟨data, line.log ++ [⟨c, result⟩]⟩)
  | .fails failure => (.error failure, ⟨line.data, line.log ++ [⟨c, .error failure⟩]⟩)
  | .loses failure _ => (.error failure, ⟨data, line.log ++ [⟨c, result⟩]⟩)

variable {fates : Nat → Fate}

/--
What is logged of a command is what it did, and it is what was replied unless the reply was lost.
-/
theorem send_cases (fates : Nat → Fate) (c : Command) (line : Line) :
    ∃ result, Data.MayGet c line.data result (send fates c line).2.data
      ∧ (send fates c line).2.log = line.log ++ [⟨c, result⟩]
      ∧ ((send fates c line).1 = result ∨ ((fates line.log.length).IsLost
        ∧ ∃ failure, (send fates c line).1 = .error failure)) := by
  unfold send
  cases fates line.log.length with
  | arrives => exact ⟨_, Or.inr ⟨rfl, rfl⟩, rfl, Or.inl rfl⟩
  | fails failure => exact ⟨_, Or.inl ⟨⟨failure, rfl⟩, rfl⟩, rfl, Or.inl rfl⟩
  | loses failure passing =>
    exact ⟨_, Or.inr ⟨rfl, rfl⟩, rfl, Or.inr ⟨trivial, failure, rfl⟩⟩

theorem eq_ok_of_send_eq_ok {c : Command} {line : Line} {reply : c.Reply}
    (h : (send fates c line).1 = .ok reply) :
    Data.MayGet c line.data (.ok reply) (send fates c line).2.data
      ∧ (send fates c line).2.log = line.log ++ [⟨c, .ok reply⟩] := by
  obtain ⟨result, hget, hlog, hresult | ⟨-, failure, hfailure⟩⟩ := send_cases fates c line
  · rw [← h, hresult]
    exact ⟨hget, hlog⟩
  · rw [hfailure] at h
    cases h

theorem does_of_repeatable (p : Policy) {c : Command} (hc : Data.Repeatable c) :
    (Observed.runtime (some p) (send fates)).Does (fun o => o.state.data) c := by
  intro o reply hok
  have hdone : ∀ line : Line,
      line.data = o.state.data ∨ line.data = (Data.send c o.state.data).2 →
        Data.send c line.data = Data.send c o.state.data := by
    rintro line (hline | hline)
    · rw [hline]
    · rw [hline, hc]
  -- attempts before the last one have done the command, or nothing
  have hfails : ∀ (line : Line) (failure : Failure),
      line.data = o.state.data ∨ line.data = (Data.send c o.state.data).2 →
        (send fates c line).1 = .error failure →
          (send fates c line).2.data = o.state.data
            ∨ (send fates c line).2.data = (Data.send c o.state.data).2 := by
    intro line _ hline _
    obtain ⟨result, hget, -, -⟩ := send_cases fates c line
    rcases hget with ⟨-, hafter⟩ | ⟨-, hafter⟩
    · rwa [hafter]
    · right
      rw [hafter, hdone line hline]
  obtain ⟨last, hlast, hresult, hafter⟩ := Observed.send_last (some p) c hfails (Or.inl rfl)
  obtain ⟨hsend, hdata⟩ := (eq_ok_of_send_eq_ok (hresult.symm.trans hok)).1.eq_of_ok rfl
  rw [hdone last hlast] at hsend hdata
  exact ⟨hsend, (congrArg Line.data hafter).trans hdata⟩

end Line

end Rollup.Store
