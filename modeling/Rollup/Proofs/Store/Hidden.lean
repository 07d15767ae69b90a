import Rollup.Proofs.Store.Lossy
import Rollup.Proofs.Store.Strict

/-!
This module contains buckets that resets cannot find, although all increments succeed: a count whose
reply was lost is sent again, and its second reply no longer tells that the bucket is new. The main
statement is `hidden_iff_replyLost`, which says that there are no other such buckets.
-/

namespace Rollup.Store

open Rollup.Retry Rollup.Time

variable {fates : Nat → Fate}

/--
The reply to a count in a bucket was lost while the bucket was not recorded, and since then it was
neither recorded nor removed.
-/
def ReplyLost (fates : Nat → Fate) (bookkeeping key : String) : List Sent → Prop :=
  Since (fun earlier x => (fates earlier.length).IsLost ∧ x.Counts key
      ∧ ¬Recorded bookkeeping key earlier)
    (fun y => y.Records bookkeeping key ∨ y.Removes key)

/--
What is known of a bucket between two commands of a program in a phase, from the log so far. Between
attempts of one command it stays known.
-/
structure Accounted (fates : Nat → Fate) (keys : KeySpace) (name key : String) (phase : Phase)
    (line : Line) : Prop where
  tidy : line.data.Tidy keys
  recorded : key ∈ line.data.members (keys.bookkeeping name)
    ↔ Recorded (keys.bookkeeping name) key line.log
  lost : ReplyLost fates (keys.bookkeeping name) key line.log →
    key ∈ line.data.hashes ∧ key ∉ line.data.members (keys.bookkeeping name)
  unrecorded : phase ≠ .counted → key ∈ line.data.hashes →
    key ∉ line.data.members (keys.bookkeeping name) →
      ReplyLost fates (keys.bookkeeping name) key line.log
  counted : phase = .counted → key ∈ line.data.hashes
  removed : phase = .removed → key ∉ line.data.hashes

namespace Accounted

variable {keys : KeySpace} {name key : String} {α : Type} {phase phase' : Phase} {c : Command}
variable {next : Except Failure c.Reply → Program α} {line after : Line}
variable {result : Except Failure c.Reply}

theorem empty (fates : Nat → Fate) (keys : KeySpace) (name key : String) :
    Accounted fates keys name key .idle .empty where
  tidy := Data.tidy_empty keys
  recorded := by simp [Line.empty, Data.members, Data.empty, Recorded]
  lost := by simp [Line.empty, ReplyLost]
  unrecorded := by simp [Line.empty, Data.empty]
  counted := by simp
  removed := by simp

theorem idle (h : Accounted fates keys name key phase line) (hphase : phase ≠ .counted) :
    Accounted fates keys name key .idle line where
  tidy := h.tidy
  recorded := h.recorded
  lost := h.lost
  unrecorded := fun _ => h.unrecorded hphase
  counted := by simp
  removed := by simp

section

variable (h : Accounted fates keys name key phase line)
variable (hget : Data.MayGet c line.data result after.data)
variable (hlog : after.log = line.log ++ [⟨c, result⟩])
include h hget hlog

theorem recorded_step : key ∈ after.data.members (keys.bookkeeping name)
    ↔ Recorded (keys.bookkeeping name) key after.log := by
  rw [hlog, hget.mem_members_iff, h.recorded, Recorded, since_append_singleton]

theorem lost_step (hlost : ReplyLost fates (keys.bookkeeping name) key after.log) :
    key ∈ after.data.hashes ∧ key ∉ after.data.members (keys.bookkeeping name) := by
  rw [hlog] at hlost
  rcases since_append_singleton.1 hlost with ⟨-, hcounts, hnot⟩ | ⟨hbefore, hrest⟩
  · rw [hget.mem_hashes_iff, hget.mem_members_iff]
    constructor
    · exact Or.inl hcounts
    · rintro (hrecords | ⟨hmember, -⟩)
      · exact hcounts.not_records hrecords
      · exact hnot (h.recorded.1 hmember)
  · exact hget.stays_unrecorded (h.lost hbefore) hrest

variable (hadvance : Advance keys name key phase phase' ⟨c, result⟩ line.data after.data)
include hadvance

/--
A bucket that was there and is unrecorded now was unrecorded before, by a lost reply.
-/
theorem unrecorded_step (hphase : phase ≠ .counted) (hbefore : key ∈ line.data.hashes)
    (hhash : key ∈ after.data.hashes)
    (hmember : key ∉ after.data.members (keys.bookkeeping name)) :
    ReplyLost fates (keys.bookkeeping name) key after.log := by
  have hrest := hget.not_records_or_removes ⟨hhash, hmember⟩
  rw [hget.mem_members_iff, not_or, not_and, Classical.not_not] at hmember
  rw [hlog]
  refine since_append_singleton.2 (Or.inr ⟨h.unrecorded hphase hbefore ?_, hrest⟩)
  intro hmember'
  exact h.removed (hadvance.unrecords (hmember.2 hmember')).1 hbefore

/--
A command that succeeds leads to the next phase.
-/
theorem advance {reply : c.Reply} (hok : result = .ok reply) :
    Accounted fates keys name key phase' after where
  tidy := hadvance.tidy
  recorded := h.recorded_step hget hlog
  lost := h.lost_step hget hlog
  unrecorded := by
    intro hphase' hhash hmember
    have hrest := hget.not_records_or_removes ⟨hhash, hmember⟩
    -- a bucket that was just counted is recorded by this very command
    have hphase : phase ≠ .counted := by
      intro hphase
      rcases hadvance.records hphase with hrecords | hfails
      · exact hrest (Or.inl hrecords)
      · subst hok
        cases c <;> cases hfails
    apply h.unrecorded_step hget hlog hadvance hphase _ hhash hmember
    rcases (hget.mem_hashes_iff key).1 hhash with hcounts | ⟨hbefore, -⟩
    · exact (hadvance.counts hcounts).2.resolve_left hphase'
    · exact hbefore
  counted := fun hphase' => (hget.mem_hashes_iff key).2 (Or.inl (hadvance.counted hphase'))
  removed := by
    intro hphase' hhash
    rcases (hget.mem_hashes_iff key).1 hhash with hcounts | ⟨-, hnot⟩
    · exact hcounts.not_removes (hadvance.removed hphase')
    · exact hnot (hadvance.removed hphase')

/--
A command that seems to fail leaves the phase, as it may be sent again.
-/
theorem stay (hlost : ∀ reply, result = .ok reply → (fates line.log.length).IsLost) :
    Accounted fates keys name key phase after where
  tidy := hadvance.tidy
  recorded := h.recorded_step hget hlog
  lost := h.lost_step hget hlog
  unrecorded := by
    intro hphase hhash hmember
    rcases (hget.mem_hashes_iff key).1 hhash with hcounts | ⟨hbefore, -⟩
    · have hidle := (hadvance.counts hcounts).1
      obtain ⟨reply, hok⟩ := hcounts.eq_ok
      rw [hlog]
      refine since_append_singleton.2 (Or.inl ⟨hlost reply hok, hcounts, ?_⟩)
      intro hrecorded
      rw [hget.mem_members_iff, not_or, not_and, Classical.not_not] at hmember
      have hremoved := (hadvance.unrecords (hmember.2 (h.recorded.2 hrecorded))).1
      rw [hidle] at hremoved
      cases hremoved
    · exact h.unrecorded_step hget hlog hadvance hphase hbefore hhash hmember
  counted := by
    intro hphase
    apply (hget.mem_hashes_iff key).2
    refine Or.inr ⟨h.counted hphase, ?_⟩
    rcases hadvance.records hphase with hrecords | hfails
    · exact hrecords.not_removes
    · exact hfails.not_removes
  removed := by
    intro hphase hhash
    rcases (hget.mem_hashes_iff key).1 hhash with hcounts | ⟨hbefore, -⟩
    · have hidle := (hadvance.counts hcounts).1
      rw [hphase] at hidle
      cases hidle
    · exact h.removed hphase hbefore

end

section

variable {o : Observed Line} {places : List String} {p : Policy}

/--
An attempt that fails leaves the phase, and one that succeeds leads to the rest of the program.
-/
theorem fail (hkey : keys.IsBucketOf name key) (h : Accounted fates keys name key phase line)
    (hp : Orderly keys name key phase (.call c next)) {failure : Failure}
    (hfailure : (Line.send fates c line).1 = .error failure) :
    Accounted fates keys name key phase (Line.send fates c line).2 := by
  obtain ⟨result, hget, hlog, hresult⟩ := Line.send_cases fates c line
  obtain ⟨phase', hadvance, -⟩ := hp.advance hkey h.tidy hget
  apply h.stay hget hlog hadvance
  intro reply hok
  rcases hresult with hsame | ⟨hlost, -⟩
  · rw [hsame, hok] at hfailure
    cases hfailure
  · exact hlost

theorem succeed (hkey : keys.IsBucketOf name key) (h : Accounted fates keys name key phase line)
    (hp : Orderly keys name key phase (.call c next)) {reply : c.Reply}
    (hok : (Line.send fates c line).1 = .ok reply) :
    ∃ phase', Accounted fates keys name key phase' (Line.send fates c line).2
      ∧ Orderly keys name key phase' (next (.ok reply)) := by
  obtain ⟨hget, hlog⟩ := Line.eq_ok_of_send_eq_ok hok
  obtain ⟨phase', hadvance, hrest⟩ := hp.advance hkey h.tidy hget
  exact ⟨phase', h.advance hget hlog hadvance rfl, hrest⟩

/--
What is known of a bucket before a command is known of it after all attempts of the command.
-/
theorem retried (hkey : keys.IsBucketOf name key)
    (h : Accounted fates keys name key phase o.state)
    (hp : Orderly keys name key phase (.call c next)) :
    let out := (Observed.runtime (some p) (Line.send fates)).send c o
    (∀ failure, out.1 = .error failure → Accounted fates keys name key phase out.2.state)
      ∧ ∀ reply, out.1 = .ok reply → ∃ phase', Accounted fates keys name key phase' out.2.state
        ∧ Orderly keys name key phase' (next (.ok reply)) := by
  intro out
  obtain ⟨last, hlast, hresult, hafter⟩ := Observed.send_last (some p) c
    (fun line failure hline hfailure => hline.fail hkey hp hfailure) h
  constructor
  · intro failure hfailure
    rw [hafter]
    exact hlast.fail hkey hp (hresult.symm.trans hfailure)
  · intro reply hok
    rw [hafter]
    exact hlast.succeed hkey hp (hresult.symm.trans hok)

theorem hgetall (hkey : keys.IsBucketOf name key) (place : String)
    (h : Accounted fates keys name key .idle line) :
    Accounted fates keys name key .idle (Line.send fates (.hgetall place) line).2 := by
  have hp : Orderly keys name key (α := Unit) .idle (.call (.hgetall place) fun _ => .done (.ok ())) :=
    .other _ (Or.inr (Or.inr rfl)) fun _ => .done _
  cases hresult : (Line.send fates (.hgetall place) line).1 with
  | ok hash =>
    obtain ⟨phase', hafter, hrest⟩ := h.succeed hkey hp hresult
    cases hrest
    exact hafter
  | error failure => exact h.fail hkey hp hresult

end

end Accounted

theorem Orderly.of_error {keys : KeySpace} {name key : String} {α : Type} {phase : Phase}
    {c : Command} {next : Except Failure c.Reply → Program α}
    (hp : Orderly keys name key phase (.call c next)) (failure : Failure) :
    Orderly keys name key .idle (next (.error failure)) := by
  cases hp with
  | count _ _ _ _ failed => exact failed failure
  | list _ _ failed => exact failed failure
  | remove _ _ _ failed => exact failed failure
  | record rest => exact rest _
  | put _ _ _ _ rest => exact rest _
  | unrecord _ rest => exact rest _
  | take _ _ _ rest => exact rest _
  | removeTotal _ rest => exact rest _
  | other _ _ rest => exact rest _

/--
An orderly program that succeeds, or that records nothing, leaves a bucket unrecorded only by a lost
reply.
-/
theorem Accounted.run {keys : KeySpace} {name key : String} {α : Type} {phase : Phase}
    {p : Program α} {policy : Policy} {o : Observed Line} (hkey : keys.IsBucketOf name key)
    (hp : Orderly keys name key phase p) (h : Accounted fates keys name key phase o.state)
    (hend : (p.Strict ∧ ∃ a, (p.run (Observed.runtime (some policy) (Line.send fates)) o).1 = .ok a)
      ∨ p.Sends fun c => c.verb ≠ .sadd) :
    Accounted fates keys name key .idle
      (p.run (Observed.runtime (some policy) (Line.send fates)) o).2.state := by
  induction p generalizing phase o with
  | done result =>
    cases hp
    exact h
  | call c rest ih =>
    obtain ⟨hfails, hsucceeds⟩ := h.retried (p := policy) hkey hp
    unfold Program.run at hend ⊢
    simp only at hend ⊢
    cases hresult : ((Observed.runtime (some policy) (Line.send fates)).send c o).1 with
    | ok reply =>
      obtain ⟨phase', hafter, hrest⟩ := hsucceeds reply hresult
      rw [hresult] at hend
      apply ih _ hrest hafter
      rcases hend with ⟨hstrict, hok⟩ | hsends
      · exact Or.inl ⟨hstrict.2 reply, hok⟩
      · exact Or.inr (hsends.2 _)
    | error failure =>
      rw [hresult] at hend
      rcases hend with ⟨hstrict, a, hok⟩ | hsends
      · obtain ⟨e, hdone⟩ := hstrict.1 failure
        rw [hdone] at hok
        cases hok
      · have hphase : phase ≠ .counted := by
          rintro rfl
          cases hp
          exact hsends.1 rfl
        exact ih _ (hp.of_error failure) ((hfails failure hresult).idle hphase)
          (Or.inr (hsends.2 _))
  | readAll places rest ih =>
    cases hp with
    | readAll _ hrest =>
      apply ih _ (hrest _)
      · exact policy.readAll_preserves (fun place _ line hline => hline.hgetall hkey place) h
      · rcases hend with ⟨hstrict, hok⟩ | hsends
        · exact Or.inl ⟨hstrict _, hok⟩
        · exact Or.inr (hsends _)
  | report event rest ih =>
    cases hp with
    | report _ hrest =>
      apply ih hrest _ hend
      rwa [Observed.state_report]

theorem Counters.verb_ne_sadd_of_maySend {keys : KeySpace} {r : Request} {c : Command}
    (hr : ¬r.IsIncrement) (h : MaySend keys r c) : c.verb ≠ .sadd := by
  cases r with
  | increment name amount instant => exact absurd trivial hr
  | reset name =>
    rcases h with rfl | rfl | ⟨_, rfl | rfl⟩ | rfl
    all_goals simp [Command.verb]
  | list =>
    cases h
    simp [Command.verb]
  | total name =>
    cases h
    simp [Command.verb]
  | counts name start finish r =>
    cases h
    simp [Command.verb]
  | countsEnding name n finish r =>
    cases h
    simp [Command.verb]

namespace Line

variable {keys : KeySpace} {p : Policy} {name key : String} {line : Line} {r : Request}

def after (fates : Nat → Fate) (keys : KeySpace) (p : Policy) (line : Line)
    (requests : List Request) : Line :=
  requests.foldl (fun line r => ((send fates).serve keys (some p) line r).2) line

/--
All increments among some requests succeed.
-/
def Acknowledges (fates : Nat → Fate) (keys : KeySpace) (p : Policy) : Line → List Request → Prop
  | _, [] => True
  | line, r :: requests =>
    (r.IsIncrement → ((send fates).serve keys (some p) line r).1.isOk)
      ∧ Acknowledges fates keys p ((send fates).serve keys (some p) line r).2 requests

theorem accounted_serve (hkey : keys.IsBucketOf name key)
    (h : Accounted fates keys name key .idle line)
    (hr : r.IsIncrement → ((send fates).serve keys (some p) line r).1.isOk) :
    Accounted fates keys name key .idle ((send fates).serve keys (some p) line r).2 := by
  apply h.run (o := .start line) hkey (Counters.orderly_answer hkey r)
  by_cases hincrement : r.IsIncrement
  · left
    have hok := hr hincrement
    unfold Client.serve at hok
    refine ⟨Counters.strict_answer hincrement, ?_⟩
    generalize ((Counters.answer keys r).run _ _).1 = result at hok ⊢
    cases result with
    | ok answer => exact ⟨answer, rfl⟩
    | error e => cases hok
  · right
    exact (Counters.sends_answer r).mono fun c => Counters.verb_ne_sadd_of_maySend hincrement

theorem accounted_after (hkey : keys.IsBucketOf name key) {requests : List Request}
    (h : Accounted fates keys name key .idle line)
    (hrequests : Acknowledges fates keys p line requests) :
    Accounted fates keys name key .idle (line.after fates keys p requests) := by
  induction requests generalizing line with
  | nil => exact h
  | cons r requests ih => exact ih (accounted_serve hkey h hrequests.1) hrequests.2

theorem data_serve_reset {answer : Answer}
    (h : ((send fates).serve keys (some p) line (.reset name)).1 = .ok answer) :
    ((send fates).serve keys (some p) line (.reset name)).2.data = line.data.reset keys name := by
  have hdoes : ∀ c, Counters.MaySend keys (.reset name) c →
      (Observed.runtime (some p) (send fates)).Does (fun o => o.state.data) c :=
    fun c hc => does_of_repeatable p (Data.repeatable_of_maySend_reset hc)
  unfold Client.serve Counters.answer at h ⊢
  rw [Program.run_map] at h ⊢
  cases hrun : ((Counters.reset keys name).run (Observed.runtime (some p) (send fates))
      (.start line)).1 with
  | error e =>
    rw [hrun] at h
    cases h
  | ok _ =>
    refine (Counters.data_run_reset hdoes ?_ hrun).2
    intro event o
    rw [Observed.state_report]

/--
As long as all increments succeed, buckets are there without being recorded exactly if a reply to
counting in them was lost, and these are the buckets that a reset leaves.
-/
theorem hidden_iff_replyLost (keys : KeySpace) (p : Policy) (fates : Nat → Fate)
    (requests : List Request) (h : Acknowledges fates keys p empty requests) {name key : String}
    (hkey : keys.IsBucketOf name key) :
    let line := empty.after fates keys p requests
    let out := (send fates).serve keys (some p) line (.reset name)
    (key ∈ line.data.hashes ∧ key ∉ line.data.members (keys.bookkeeping name)
        ↔ ReplyLost fates (keys.bookkeeping name) key line.log)
      ∧ ∀ answer, out.1 = .ok answer →
        (key ∈ out.2.data.hashes ↔ ReplyLost fates (keys.bookkeeping name) key line.log) := by
  intro line out
  have haccounted : Accounted fates keys name key .idle line :=
    accounted_after hkey (.empty fates keys name key) h
  have hhidden : key ∈ line.data.hashes ∧ key ∉ line.data.members (keys.bookkeeping name)
      ↔ ReplyLost fates (keys.bookkeeping name) key line.log := by
    constructor
    · rintro ⟨hhash, hmember⟩
      exact haccounted.unrecorded (by simp) hhash hmember
    · exact haccounted.lost
  refine ⟨hhidden, ?_⟩
  intro answer hok
  have hdata : out.2.data = line.data.reset keys name := data_serve_reset hok
  rw [hdata, Data.mem_hashes_reset hkey, hhidden]

/--
The first command of an increment takes effect, but its reply is lost, so it is sent again.
-/
theorem replyLost_countedTwice :
    let noon : Instant := ⟨⟨2024, 2, 29, by decide, by decide, by decide⟩, 43200, 0, by decide,
      by decide, by decide⟩
    let requests : List Request := [.increment "a" ⟨1, by decide, by decide⟩ noon]
    let fates : Nat → Fate := fun n => if n = 0 then .loses .timeout (by decide) else .arrives
    Acknowledges fates .standard .standard empty requests
      ∧ ReplyLost fates (KeySpace.standard.bookkeeping "a") (KeySpace.standard.years "a")
        (empty.after fates .standard .standard requests).log := by
  intro noon requests fates
  have hacknowledged : Acknowledges fates .standard .standard empty requests :=
    ⟨fun _ => by decide +kernel, trivial⟩
  have hlost := hidden_iff_replyLost .standard .standard fates requests hacknowledged
    (KeySpace.isBucketOf_years .standard "a")
  refine ⟨hacknowledged, hlost.1.1 ?_⟩
  decide +kernel

/--
Buckets may be there without being recorded, and resets that succeed may leave them, although all
increments succeeded.
-/
theorem not_recorded_after_lostReply : ¬∀ (keys : KeySpace) (p : Policy) (fates : Nat → Fate)
    (requests : List Request), Acknowledges fates keys p empty requests →
      ∀ name key, keys.IsBucketOf name key →
        (key ∈ (empty.after fates keys p requests).data.hashes →
          key ∈ (empty.after fates keys p requests).data.members (keys.bookkeeping name))
        ∧ (((send fates).serve keys (some p) (empty.after fates keys p requests)
            (.reset name)).1 = .ok .done →
          key ∉ ((send fates).serve keys (some p) (empty.after fates keys p requests)
            (.reset name)).2.data.hashes) := by
  intro h
  let noon : Instant := ⟨⟨2024, 2, 29, by decide, by decide, by decide⟩, 43200, 0, by decide,
    by decide, by decide⟩
  have hfails := h .standard .standard
    (fun n => if n = 0 then .loses .timeout (by decide) else .arrives)
    [.increment "a" ⟨1, by decide, by decide⟩ noon] ⟨fun _ => by decide +kernel, trivial⟩ "a" _
    (KeySpace.isBucketOf_years .standard "a")
  apply hfails.2
  · decide +kernel
  · decide +kernel

end Line

end Rollup.Store
