import Rollup.Proofs.Store.Advance
import Rollup.Proofs.Store.Run

/-!
This module contains what becomes of a bucket while commands may fail: it is in the bookkeeping set
of its counter unless recording it failed and was never made up for. The main statement about
programs is `Kept.run`: they keep this so, wherever a failure ends them.
-/

namespace Rollup.Store

/--
Recording a bucket failed while it was not recorded, and since then it was neither recorded nor
removed.
-/
def LeftUnrecorded (bookkeeping key : String) : List Sent → Prop :=
  Since (fun earlier x => x.FailsToRecord bookkeeping key ∧ ¬Recorded bookkeeping key earlier)
    (fun y => y.Records bookkeeping key ∨ y.Removes key)

/--
What is known of a bucket between two commands of a program in a phase, from the trace so far.
-/
structure Kept (keys : KeySpace) (name key : String) (phase : Phase) (d : Data)
    (trace : List Sent) : Prop where
  tidy : d.Tidy keys
  recorded : key ∈ d.members (keys.bookkeeping name) ↔ Recorded (keys.bookkeeping name) key trace
  left : LeftUnrecorded (keys.bookkeeping name) key trace →
    key ∈ d.hashes ∧ key ∉ d.members (keys.bookkeeping name)
  unrecorded : phase ≠ .counted → key ∈ d.hashes → key ∉ d.members (keys.bookkeeping name) →
    LeftUnrecorded (keys.bookkeeping name) key trace
  counted : phase = .counted → key ∈ d.hashes
  removed : phase = .removed → key ∉ d.hashes

section

variable {keys : KeySpace} {name key : String} {α : Type} {phase : Phase} {c : Command}
variable {next : Except Failure c.Reply → Program α} {d after : Data}
variable {result : Except Failure c.Reply} {trace : List Sent}

namespace Kept

theorem empty (keys : KeySpace) (name key : String) : Kept keys name key .idle .empty [] where
  tidy := Data.tidy_empty keys
  recorded := by simp [Data.members, Data.empty, Recorded]
  left := by simp [LeftUnrecorded]
  unrecorded := by simp [Data.empty]
  counted := by simp
  removed := by simp

theorem recorded_step (h : Kept keys name key phase d trace) (hget : Data.MayGet c d result after) :
    key ∈ after.members (keys.bookkeeping name)
      ↔ Recorded (keys.bookkeeping name) key (trace ++ [⟨c, result⟩]) := by
  rw [hget.mem_members_iff, h.recorded, Recorded, since_append_singleton]

theorem advance {phase' : Phase} (h : Kept keys name key phase d trace)
    (hget : Data.MayGet c d result after)
    (hadvance : Advance keys name key phase phase' ⟨c, result⟩ d after) :
    Kept keys name key phase' after (trace ++ [⟨c, result⟩]) where
  tidy := hadvance.tidy
  recorded := h.recorded_step hget
  left := by
    intro hleft
    rcases since_append_singleton.1 hleft with ⟨hfails, hnot⟩ | ⟨hleft, hrest⟩
    · rw [hget.mem_hashes_iff, hget.mem_members_iff]
      constructor
      · exact Or.inr ⟨h.counted (hadvance.fails hfails), hfails.not_removes⟩
      · rintro (hrecords | ⟨hbefore, -⟩)
        · exact hfails.not_records hrecords
        · exact hnot (h.recorded.1 hbefore)
    · exact hget.stays_unrecorded (h.left hleft) hrest
  unrecorded := by
    intro hphase' hhash hmember
    have hrest := hget.not_records_or_removes ⟨hhash, hmember⟩
    rw [hget.mem_hashes_iff] at hhash
    rw [hget.mem_members_iff, not_or, not_and, Classical.not_not] at hmember
    obtain ⟨hrecords, hunrecords⟩ := hmember
    apply since_append_singleton.2
    -- a bucket that was just counted has failed to be recorded now, all others were left before
    by_cases hphase : phase = .counted
    · left
      refine ⟨(hadvance.records hphase).resolve_left hrecords, ?_⟩
      intro hrecorded
      have := (hadvance.unrecords (hunrecords (h.recorded.2 hrecorded))).1
      simp [hphase] at this
    · right
      have hbefore : key ∈ d.hashes := by
        rcases hhash with hcounts | ⟨hbefore, -⟩
        · exact (hadvance.counts hcounts).2.resolve_left hphase'
        · exact hbefore
      refine ⟨h.unrecorded hphase hbefore ?_, hrest⟩
      intro hmember
      exact h.removed (hadvance.unrecords (hunrecords hmember)).1 hbefore
  counted := fun hphase' => (hget.mem_hashes_iff key).2 (Or.inl (hadvance.counted hphase'))
  removed := by
    intro hphase' hhash
    rcases (hget.mem_hashes_iff key).1 hhash with hcounts | ⟨-, hnot⟩
    · exact hcounts.not_removes (hadvance.removed hphase')
    · exact hnot (hadvance.removed hphase')

theorem step (hkey : keys.IsBucketOf name key) (h : Kept keys name key phase d trace)
    (hp : Orderly keys name key phase (.call c next)) (hget : Data.MayGet c d result after) :
    ∃ phase', Kept keys name key phase' after (trace ++ [⟨c, result⟩])
      ∧ Orderly keys name key phase' (next result) := by
  obtain ⟨phase', hadvance, hrest⟩ := hp.advance hkey h.tidy hget
  exact ⟨phase', h.advance hget hadvance, hrest⟩

section

variable {σ : Type} {client : Client σ} {data : σ → Data} {s : σ × List Sent}

theorem hgetall (hkey : keys.IsBucketOf name key) (hclient : client.WorksOn data) (place : String)
    (h : Kept keys name key .idle (data s.1) s.2) :
    Kept keys name key .idle (data (client.traced (.hgetall place) s).2.1)
      (client.traced (.hgetall place) s).2.2 := by
  have hp : Orderly keys name key (α := Unit) .idle (.call (.hgetall place) fun _ => .done (.ok ())) :=
    .other _ (Or.inr (Or.inr rfl)) fun _ => .done _
  obtain ⟨phase', hkept, hrest⟩ := h.step hkey hp (hclient (.hgetall place) s.1)
  cases hrest
  exact hkept

/--
An orderly program leaves a bucket unrecorded only where the trace tells so, wherever it ends.
-/
theorem run (hkey : keys.IsBucketOf name key) (hclient : client.WorksOn data) {p : Program α}
    (hp : Orderly keys name key phase p) (h : Kept keys name key phase (data s.1) s.2) :
    Kept keys name key .idle (data (p.run client.traced.bare s).2.1)
      (p.run client.traced.bare s).2.2 := by
  -- the phase that each command leads to is where the rest of the program goes on
  induction p generalizing phase s with
  | done result =>
    cases hp
    exact h
  | call c rest ih =>
    obtain ⟨phase', hkept, hrest⟩ := h.step hkey hp (hclient c s.1)
    exact ih _ hrest hkept
  | readAll places rest ih =>
    cases hp with
    | readAll _ hrest =>
      apply ih _ (hrest _)
      exact Client.readInTurn_preserves
        (P := fun s : σ × List Sent => Kept keys name key .idle (data s.1) s.2)
        (fun place _ hs => hs.hgetall hkey hclient place) places h
  | report event rest ih =>
    cases hp with
    | report _ hrest => exact ih hrest h

end

end Kept

end

end Rollup.Store
