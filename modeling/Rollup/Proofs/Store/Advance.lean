import Rollup.Proofs.Store.Orderly
import Rollup.Proofs.Store.Sent

/-!
This module contains what a single command of an orderly program can do to a bucket. All that is
known of buckets along runs is derived from it.
-/

namespace Rollup.Store

/--
The bookkeeping sets have nothing but keys of buckets of their counters.
-/
def Data.Tidy (keys : KeySpace) (d : Data) : Prop :=
  ∀ n, ∀ member ∈ d.members (keys.bookkeeping n), keys.IsBucketOf n member

theorem Data.tidy_empty (keys : KeySpace) : Data.Tidy keys .empty := by
  intro n member hmember
  simp [members, empty] at hmember

/--
What a command, sent in one phase of an orderly program and followed by another phase, means for the
bucket at `key` of the named counter.
-/
structure Advance (keys : KeySpace) (name key : String) (phase phase' : Phase) (x : Sent)
    (d after : Data) : Prop where
  tidy : after.Tidy keys
  -- a bucket that is counted is recorded next, unless it was there already
  counts : x.Counts key → phase = .idle ∧ (phase' = .counted ∨ key ∈ d.hashes)
  -- a bucket that was counted is recorded, or that fails
  records : phase = .counted →
    x.Records (keys.bookkeeping name) key ∨ x.FailsToRecord (keys.bookkeeping name) key
  fails : x.FailsToRecord (keys.bookkeeping name) key → phase = .counted
  -- a bucket leaves the bookkeeping set only after it was removed
  unrecords : x.Unrecords (keys.bookkeeping name) key →
    phase = .removed ∧ x.TakesOut (keys.bookkeeping name) key
  counted : phase' = .counted → x.Counts key
  removed : phase' = .removed → x.Removes key

section

variable {keys : KeySpace} {name key : String} {α : Type} {phase : Phase} {c : Command}
variable {next : Except Failure c.Reply → Program α} {d after : Data}
variable {result : Except Failure c.Reply}

theorem Data.Tidy.of_mayGet (h : d.Tidy keys) (hget : MayGet c d result after)
    (hrecords : ∀ n member, Sent.Records (keys.bookkeeping n) member ⟨c, result⟩ →
      keys.IsBucketOf n member) : after.Tidy keys := by
  intro n member hmember
  rcases (hget.mem_members_iff _ _).1 hmember with hnow | ⟨hbefore, -⟩
  · exact hrecords n member hnow
  · exact h n member hbefore

theorem Data.Tidy.step (hkey : keys.IsBucketOf name key) (h : d.Tidy keys)
    (hp : Orderly keys name key phase (.call c next)) (hget : MayGet c d result after) :
    after.Tidy keys := by
  apply h.of_mayGet hget
  intro n member hrecords
  have hc : c = .sadd (keys.bookkeeping n) member := hrecords.command_eq
  subst hc
  generalize hk : keys.bookkeeping n = k at hp
  cases hp with
  | record rest =>
    rw [← KeySpace.bookkeeping_inj.1 hk.symm]
    exact hkey
  | put _ _ _ bucket _ => exact bucket n hk.symm
  | other _ verb _ => simp [Command.verb] at verb

theorem Advance.quiet {x : Sent} (htidy : after.Tidy keys) (hcounts : ¬x.Counts key)
    (hfails : ¬x.FailsToRecord (keys.bookkeeping name) key)
    (hunrecords : ¬x.Unrecords (keys.bookkeeping name) key) :
    Advance keys name key .idle .idle x d after where
  tidy := htidy
  counts := fun h => absurd h hcounts
  records := by simp
  fails := fun h => absurd h hfails
  unrecords := fun h => absurd h hunrecords
  counted := by simp
  removed := by simp

theorem mem_hashes_of_value_ne_amount {field : String} {amount value : Count}
    (hget : Data.MayGet (.hincrby key field amount) d (.ok value) after) (hvalue : value ≠ amount) :
    key ∈ d.hashes := by
  -- had there been no count, the reply would have been the amount
  apply Data.mem_hashes_of_count_ne_zero field
  obtain ⟨after', hincr⟩ := Data.hincrby_of_send_eq_ok (hget.eq_of_ok rfl).1
  have hval := Data.val_hincrby hincr
  intro hzero
  apply hvalue
  apply Count.ext
  omega

namespace Advance

theorem count {k field : String} {amount value : Count} (htidy : after.Tidy keys)
    (hget : Data.MayGet (.hincrby k field amount) d (.ok value) after) :
    Advance keys name key .idle (if k = key ∧ value = amount then .counted else .idle)
      ⟨.hincrby k field amount, .ok value⟩ d after := by
  constructor
  case tidy => exact htidy
  case counts =>
    intro hcounts
    refine ⟨rfl, ?_⟩
    by_cases hvalue : value = amount
    · exact Or.inl (if_pos ⟨hcounts, hvalue⟩)
    · subst hcounts
      exact Or.inr (mem_hashes_of_value_ne_amount hget hvalue)
  case records => simp
  case fails => exact False.elim
  case unrecords => simp [Sent.Unrecords, Sent.TakesOut, Sent.Removes]
  case counted =>
    intro hphase
    split at hphase
    · next both => exact both.1
    · cases hphase
  case removed =>
    intro hphase
    split at hphase
    · cases hphase
    · cases hphase

theorem record {result : Except Failure Unit} (htidy : after.Tidy keys) :
    Advance keys name key .counted .idle ⟨.sadd (keys.bookkeeping name) key, result⟩ d after := by
  constructor
  case tidy => exact htidy
  case counts => simp [Sent.Counts]
  case records =>
    intro _
    cases result with
    | ok _ => exact Or.inl ⟨rfl, rfl⟩
    | error failure => exact Or.inr ⟨rfl, rfl⟩
  case fails => exact fun _ => rfl
  case unrecords => simp [Sent.Unrecords, Sent.TakesOut, Sent.Removes]
  case counted => simp
  case removed => simp

theorem remove {buckets : List String} (htidy : after.Tidy keys)
    (hnot : ¬Sent.Unrecords (keys.bookkeeping name) key ⟨.batchDel buckets, .ok ()⟩) :
    Advance keys name key .idle (if key ∈ buckets then .removed else .idle)
      ⟨.batchDel buckets, .ok ()⟩ d after := by
  constructor
  case tidy => exact htidy
  case counts => simp [Sent.Counts]
  case records => simp
  case fails => simp [Sent.FailsToRecord]
  case unrecords => exact fun h => absurd h hnot
  case counted =>
    intro hphase
    split at hphase
    · cases hphase
    · cases hphase
  case removed =>
    intro hphase
    split at hphase
    · next hmem => exact hmem
    · cases hphase

theorem unrecord {gone : List String} {result : Except Failure Unit} (htidy : after.Tidy keys) :
    Advance keys name key .removed .idle ⟨.srem (keys.bookkeeping name) gone, result⟩ d after := by
  constructor
  case tidy => exact htidy
  case counts => simp [Sent.Counts]
  case records => simp
  case fails => simp [Sent.FailsToRecord]
  case unrecords =>
    rintro (htakes | hremoves)
    · exact ⟨rfl, htakes⟩
    · cases hremoves
  case counted => simp
  case removed => simp

end Advance

theorem not_unrecords_batchDel {buckets : List String} {result : Except Failure Unit}
    (hbucket : ∀ k ∈ buckets, ∃ n, keys.IsBucketOf n k) :
    ¬Sent.Unrecords (keys.bookkeeping name) key ⟨.batchDel buckets, result⟩ := by
  rintro (htakes | hremoves)
  · cases htakes
  · cases result with
    | ok _ =>
      obtain ⟨n, level, a, heq⟩ := hbucket _ hremoves
      exact absurd heq KeySpace.bookkeeping_ne_bucket
    | error failure => cases hremoves

/--
A command of an orderly program leaves an orderly program to go on with.
-/
theorem Orderly.advance (hkey : keys.IsBucketOf name key) (htidy : d.Tidy keys)
    (hp : Orderly keys name key phase (.call c next)) (hget : Data.MayGet c d result after) :
    ∃ phase', Advance keys name key phase phase' ⟨c, result⟩ d after
      ∧ Orderly keys name key phase' (next result) := by
  have htidy' := htidy.step hkey hp hget
  -- most commands leave the bucket alone: the others are to count, to record and to remove it, and
  -- to take it out of the bookkeeping set
  cases hp with
  | count k field amount counted failed =>
    cases result with
    | ok value => exact ⟨_, .count htidy' hget, counted value⟩
    | error failure =>
      exact ⟨.idle, .quiet htidy' (by simp [Sent.Counts]) (by simp [Sent.FailsToRecord])
        (by simp [Sent.Unrecords, Sent.TakesOut, Sent.Removes]), failed failure⟩
  | record rest => exact ⟨.idle, .record htidy', rest result⟩
  | put k member other _ rest =>
    refine ⟨.idle, .quiet htidy' (by simp [Sent.Counts]) ?_
      (by simp [Sent.Unrecords, Sent.TakesOut, Sent.Removes]), rest result⟩
    cases result with
    | ok _ => simp [Sent.FailsToRecord]
    | error failure => exact other
  | list k listed failed =>
    have hquiet : Advance keys name key .idle .idle ⟨.smembers k, result⟩ d after :=
      .quiet htidy' (by simp [Sent.Counts]) (by simp [Sent.FailsToRecord])
        (by simp [Sent.Unrecords, Sent.TakesOut, Sent.Removes])
    cases result with
    | ok members =>
      refine ⟨.idle, hquiet, listed members ?_⟩
      rintro n rfl member hmember
      have hreply := (hget.eq_of_ok rfl).1
      cases hreply
      exact htidy n member (Std.ExtTreeSet.mem_toList.1 hmember)
    | error failure => exact ⟨.idle, hquiet, failed failure⟩
  | remove buckets bucket removed failed =>
    cases result with
    | ok _ => exact ⟨_, .remove htidy' (not_unrecords_batchDel bucket), removed⟩
    | error failure =>
      exact ⟨.idle, .quiet htidy' (by simp [Sent.Counts]) (by simp [Sent.FailsToRecord])
        (not_unrecords_batchDel bucket), failed failure⟩
  | unrecord gone rest => exact ⟨.idle, .unrecord htidy', rest result⟩
  | take k gone other rest =>
    refine ⟨.idle, .quiet htidy' (by simp [Sent.Counts]) (by simp [Sent.FailsToRecord]) ?_,
      rest result⟩
    rintro (htakes | hremoves)
    · cases result with
      | ok _ => exact absurd htakes other
      | error failure => cases htakes
    · cases hremoves
  | removeTotal n rest =>
    refine ⟨.idle, .quiet htidy' (by simp [Sent.Counts]) (by simp [Sent.FailsToRecord]) ?_,
      rest result⟩
    rintro (htakes | hremoves)
    · cases htakes
    · cases result with
      | ok _ => exact absurd (Eq.symm hremoves) KeySpace.bookkeeping_ne_total
      | error failure => cases hremoves
  | other c verb rest =>
    refine ⟨.idle, ?_, rest result⟩
    rcases c <;> simp only [Command.verb, reduceCtorEq, or_self, or_false, false_or] at verb
    all_goals
      exact .quiet htidy' (by simp [Sent.Counts]) (by simp [Sent.FailsToRecord])
        (by simp [Sent.Unrecords, Sent.TakesOut, Sent.Removes])

end

end Rollup.Store
