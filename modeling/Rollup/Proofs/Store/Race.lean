import Rollup.Proofs.Store.Booked

/-!
This module contains calls that run at the same time, command by command. The main statement is
`reset_after_race`: once all calls have ended, a bucket survives a further reset exactly if it was
counted between the removal and the unrecording of a reset and not recorded since.
-/

namespace Rollup.Store

open Rollup.Time

/--
Calls that run at the same time on some data, with what each of them has still to do.
-/
structure Race (α : Type) where
  data : Data
  calls : List (Program α)
  trace : List Sent

def Recounted (key : String) : List Sent → Prop :=
  Since (fun earlier x => x.Counts key ∧ ∃ y ∈ earlier, y.Removes key) (·.Removes key)

/--
A bucket was taken out of the bookkeeping set although it was counted since it was removed last, and
since then it was neither recorded nor removed.
-/
def Raced (bookkeeping key : String) : List Sent → Prop :=
  Since (fun earlier x => x.TakesOut bookkeeping key ∧ Recounted key earlier)
    (fun y => y.Records bookkeeping key ∨ y.Removes key)

def Program.Ended {α : Type} : Program α → Prop
  | done _ => True
  | _ => False

instance {α : Type} : DecidablePred (Program.Ended (α := α)) := fun p =>
  match p with
  | .done _ => isTrue trivial
  | .call _ _ => isFalse id
  | .readAll _ _ => isFalse id
  | .report _ _ => isFalse id

namespace Race

variable {α : Type}

/--
The call in one place goes on by one command. Reports, and reads of several hashes, which neither
increments nor resets make, leave no trace.
-/
def step (s : Race α) (i : Nat) : Race α :=
  match s.calls[i]? with
  | some (.call c next) =>
    let (result, data) := Data.send c s.data
    ⟨data, s.calls.set i (next result), s.trace ++ [⟨c, result⟩]⟩
  | some (.readAll places next) =>
    { s with calls := s.calls.set i (next (.all (places.map s.data.hash))) }
  | some (.report _ next) => { s with calls := s.calls.set i next }
  | some (.done _) => s
  | none => s

/--
The calls go on in the order of a schedule, which tells the place of the one that goes on next.
-/
def run (s : Race α) (schedule : List Nat) : Race α :=
  schedule.foldl step s

end Race

section

variable {keys : KeySpace} {name key : String} {α : Type} {c : Command}
variable {next : Except Failure c.Reply → Program α} {d after : Data}
variable {result : Except Failure c.Reply} {trace : List Sent} {p : Program α} {phase : Phase}

/--
What a call has still to do is orderly. Where it has just removed the bucket, others may have
counted the bucket again.
-/
def Ready (keys : KeySpace) (name key : String) (d : Data) (trace : List Sent) (p : Program α) :
    Prop :=
  ∃ phase, Orderly keys name key phase p
    ∧ (phase = .removed → (∃ y ∈ trace, y.Removes key) ∧ (key ∈ d.hashes → Recounted key trace))

theorem Ready.of_idle (h : Orderly keys name key .idle p) : Ready keys name key d trace p :=
  ⟨.idle, h, by simp⟩

theorem Ready.wait (h : Ready keys name key d trace p) (hget : Data.MayGet c d result after) :
    Ready keys name key after (trace ++ [⟨c, result⟩]) p := by
  obtain ⟨phase, hp, hremoved⟩ := h
  refine ⟨phase, hp, ?_⟩
  intro hphase
  obtain ⟨⟨y, hy, hremoves⟩, hcounted⟩ := hremoved hphase
  refine ⟨⟨y, List.mem_append_left _ hy, hremoves⟩, ?_⟩
  intro hhash
  apply since_append_singleton.2
  rcases (hget.mem_hashes_iff key).1 hhash with hcounts | ⟨hbefore, hnot⟩
  · exact Or.inl ⟨hcounts, y, hy, hremoves⟩
  · exact Or.inr ⟨hcounted hbefore, hnot⟩

theorem Ready.of_advance {phase' : Phase}
    (hadvance : Advance keys name key phase phase' ⟨c, result⟩ d after)
    (hget : Data.MayGet c d result after) (hp : Orderly keys name key phase' p) :
    Ready keys name key after (trace ++ [⟨c, result⟩]) p := by
  refine ⟨phase', hp, ?_⟩
  intro hphase
  have hremoves := hadvance.removed hphase
  refine ⟨⟨_, List.mem_append_right _ (List.mem_singleton.2 rfl), hremoves⟩, ?_⟩
  intro hhash
  rcases (hget.mem_hashes_iff key).1 hhash with hcounts | ⟨-, hnot⟩
  · exact absurd hremoves hcounts.not_removes
  · exact absurd hremoves hnot

theorem Orderly.records (hkey : keys.IsBucketOf name key) (htidy : d.Tidy keys)
    (hp : Orderly keys name key .counted (.call c next)) :
    Sent.Records (keys.bookkeeping name) key ⟨c, (Data.send c d).1⟩ := by
  obtain ⟨_, hadvance, -⟩ := hp.advance hkey htidy (Or.inr ⟨rfl, rfl⟩)
  apply (hadvance.records rfl).resolve_right
  apply Data.not_failsToRecord_send

end

variable {keys : KeySpace} {name key : String} {α : Type}

structure Racing (keys : KeySpace) (name key : String) (s : Race α) : Prop where
  tidy : s.data.Tidy keys
  ready : ∀ p ∈ s.calls, Ready keys name key s.data s.trace p
  -- a bucket that is not recorded will be by the call that counted it, unless there was a race
  unrecorded : key ∈ s.data.hashes → key ∉ s.data.members (keys.bookkeeping name) →
    (∃ p ∈ s.calls, Orderly keys name key .counted p) ∨ Raced (keys.bookkeeping name) key s.trace
  raced : Raced (keys.bookkeeping name) key s.trace →
    key ∈ s.data.hashes ∧ key ∉ s.data.members (keys.bookkeeping name)
  recounted : Recounted key s.trace → key ∈ s.data.hashes

theorem eq_or_mem_set {β : Type} {l : List β} {i : Nat} {a b : β} (hi : l[i]? = some a) (c : β)
    (hb : b ∈ l) : b = a ∨ b ∈ l.set i c := by
  obtain ⟨j, hj⟩ := List.mem_iff_getElem?.1 hb
  by_cases hij : i = j
  · subst hij
    rw [hi] at hj
    cases hj
    exact Or.inl rfl
  · right
    apply List.mem_iff_getElem?.2
    exact ⟨j, by rw [List.getElem?_set_ne hij, hj]⟩

namespace Racing

section

variable {s : Race α} {i : Nat}

theorem still {p q : Program α} (h : Racing keys name key s) (hi : s.calls[i]? = some p)
    (hp : ¬Orderly keys name key .counted p) (hq : Orderly keys name key .idle q) :
    Racing keys name key { s with calls := s.calls.set i q } where
  tidy := h.tidy
  ready := by
    intro r hr
    rcases List.mem_or_eq_of_mem_set hr with hr | rfl
    · exact h.ready r hr
    · exact .of_idle hq
  unrecorded := by
    intro hhash hmember
    rcases h.unrecorded hhash hmember with ⟨r, hr, hcounted⟩ | hraced
    · rcases eq_or_mem_set hi q hr with rfl | hr
      · exact absurd hcounted hp
      · exact Or.inl ⟨r, hr, hcounted⟩
    · exact Or.inr hraced
  raced := h.raced
  recounted := h.recounted

variable {c : Command} {next : Except Failure c.Reply → Program α}

theorem move (hkey : keys.IsBucketOf name key) (h : Racing keys name key s)
    (hi : s.calls[i]? = some (.call c next)) :
    Racing keys name key ⟨(Data.send c s.data).2, s.calls.set i (next (Data.send c s.data).1),
      s.trace ++ [⟨c, (Data.send c s.data).1⟩]⟩ := by
  have hget : Data.MayGet c s.data (Data.send c s.data).1 (Data.send c s.data).2 :=
    Or.inr ⟨rfl, rfl⟩
  obtain ⟨phase, hp, hremoved⟩ := h.ready _ (List.mem_of_getElem? hi)
  obtain ⟨phase', hadvance, hrest⟩ := hp.advance hkey h.tidy hget
  -- what the call has still to do changes, and so may everything that is known of the bucket
  refine ⟨hadvance.tidy, ?ready, ?unrecorded, ?raced, ?recounted⟩
  case ready =>
    intro q hq
    rcases List.mem_or_eq_of_mem_set hq with hq | rfl
    · exact (h.ready q hq).wait hget
    · exact .of_advance hadvance hget hrest
  case unrecorded =>
    intro hhash hmember
    have hrest' := hget.not_records_or_removes ⟨hhash, hmember⟩
    rw [hget.mem_hashes_iff] at hhash
    rw [hget.mem_members_iff, not_or, not_and, Classical.not_not] at hmember
    obtain ⟨hrecords, hunrecords⟩ := hmember
    -- the call that counts a new bucket becomes the one that will record it
    by_cases hphase' : phase' = .counted
    · left
      exact ⟨_, List.mem_set (List.getElem?_eq_some_iff.1 hi).1 _, hphase' ▸ hrest⟩
    have hbefore : key ∈ s.data.hashes := by
      rcases hhash with hcounts | ⟨hbefore, -⟩
      · exact (hadvance.counts hcounts).2.resolve_left hphase'
      · exact hbefore
    by_cases hmember : key ∈ s.data.members (keys.bookkeeping name)
    · right
      -- this command took the bucket out, though others have counted it since it was removed
      obtain ⟨hphase, htakes⟩ := hadvance.unrecords (hunrecords hmember)
      exact since_append_singleton.2 (Or.inl ⟨htakes, (hremoved hphase).2 hbefore⟩)
    · rcases h.unrecorded hbefore hmember with ⟨q, hq, hcounted⟩ | hraced
      · left
        rcases eq_or_mem_set hi (next (Data.send c s.data).1) hq with rfl | hq
        · exact absurd (hcounted.records hkey h.tidy) hrecords
        · exact ⟨q, hq, hcounted⟩
      · right
        exact since_append_singleton.2 (Or.inr ⟨hraced, hrest'⟩)
  case raced =>
    intro hraced
    rcases since_append_singleton.1 hraced with ⟨htakes, hrecounted⟩ | ⟨hraced, hrest⟩
    · rw [hget.mem_hashes_iff, hget.mem_members_iff]
      constructor
      · exact Or.inr ⟨h.recounted hrecounted, htakes.not_removes⟩
      · rintro (hrecords | ⟨-, hnot⟩)
        · exact htakes.not_records hrecords
        · exact hnot (Or.inl htakes)
    · exact hget.stays_unrecorded (h.raced hraced) hrest
  case recounted =>
    intro hrecounted
    rw [hget.mem_hashes_iff]
    rcases since_append_singleton.1 hrecounted with ⟨hcounts, -⟩ | ⟨hrecounted, hnot⟩
    · exact Or.inl hcounts
    · exact Or.inr ⟨h.recounted hrecounted, hnot⟩

theorem step (hkey : keys.IsBucketOf name key) (h : Racing keys name key s) (i : Nat) :
    Racing keys name key (s.step i) := by
  unfold Race.step
  split
  · next c next hi => exact h.move hkey hi
  · next places next hi =>
    obtain ⟨phase, hp, -⟩ := h.ready _ (List.mem_of_getElem? hi)
    cases hp with
    | readAll _ rest => exact h.still hi (by rintro ⟨⟩) (rest _)
  · next event next hi =>
    obtain ⟨phase, hp, -⟩ := h.ready _ (List.mem_of_getElem? hi)
    cases hp with
    | report _ rest => exact h.still hi (by rintro ⟨⟩) rest
  · exact h
  · exact h

theorem run (hkey : keys.IsBucketOf name key) (h : Racing keys name key s) (schedule : List Nat) :
    Racing keys name key (s.run schedule) := by
  induction schedule generalizing s with
  | nil => exact h
  | cons i schedule ih => exact ih (h.step hkey i)

/--
Once all calls have ended, only a race can have left a bucket unrecorded.
-/
theorem unrecorded_iff_raced (h : Racing keys name key s) (hended : ∀ p ∈ s.calls, p.Ended) :
    (key ∈ s.data.hashes ∧ key ∉ s.data.members (keys.bookkeeping name))
      ↔ Raced (keys.bookkeeping name) key s.trace := by
  constructor
  · rintro ⟨hhash, hmember⟩
    apply (h.unrecorded hhash hmember).resolve_left
    rintro ⟨p, hp, hcounted⟩
    have := hended p hp
    cases hcounted
    cases this
  · exact h.raced

end

end Racing

namespace Race

def start (keys : KeySpace) (before requests : List Request) : Race Answer :=
  ⟨Data.after keys .empty before, requests.map (Counters.answer keys), []⟩

theorem racing_start (hkey : keys.IsBucketOf name key) (before requests : List Request) :
    Racing keys name key (start keys before requests) := by
  have hbooked := (Data.booked_empty keys).after before
  refine ⟨hbooked.tidy, ?ready, ?unrecorded, ?raced, ?recounted⟩
  case ready =>
    intro p hp
    obtain ⟨r, -, rfl⟩ := List.mem_map.1 hp
    exact .of_idle (Counters.orderly_answer hkey r)
  case unrecorded =>
    intro hhash hmember
    exact absurd (hbooked.recorded name key hkey hhash) hmember
  case raced => exact fun h => absurd h not_since_nil
  case recounted => exact fun h => absurd h not_since_nil

end Race

/--
Once all calls that ran at the same time have ended, a bucket exists without being recorded exactly
if there was a race for it. A further reset alone always succeeds, and it leaves exactly these
buckets and nothing else of the counter.
-/
theorem reset_after_race (keys : KeySpace) (before requests : List Request) (schedule : List Nat)
    {name : String} (hname : name ≠ "")
    (hended : ∀ p ∈ ((Race.start keys before requests).run schedule).calls, p.Ended) :
    let s := (Race.start keys before requests).run schedule
    let d := ((Counters.reset keys name).run Data.send.bare s.data).2
    ((Counters.reset keys name).run Data.send.bare s.data).1 = .ok ()
      ∧ (keys.total name ∉ d.strings ∧ keys.bookkeeping name ∉ d.sets
        ∧ name ∉ d.members keys.names)
      ∧ (∀ key, keys.IsBucketOf name key →
        ((key ∈ s.data.hashes ∧ key ∉ s.data.members (keys.bookkeeping name))
            ↔ Raced (keys.bookkeeping name) key s.trace)
          ∧ (key ∈ d.hashes ↔ Raced (keys.bookkeeping name) key s.trace)) := by
  intro s d
  have hreset := Counters.run_reset_send hname keys s.data
  have hd : d = s.data.reset keys name := congrArg Prod.snd hreset
  refine ⟨congrArg Prod.fst hreset, ?_, ?_⟩
  · rw [hd]
    exact ⟨Data.total_not_mem_reset, Data.bookkeeping_not_mem_reset, Data.name_not_mem_reset⟩
  · intro key hkey
    have hbucket :=
      ((Race.racing_start hkey before requests).run hkey schedule).unrecorded_iff_raced hended
    refine ⟨hbucket, ?_⟩
    rw [hd, Data.mem_hashes_reset hkey]
    exact hbucket

namespace Race

def once : Request :=
  .increment "a" ⟨1, by decide, by decide⟩ (.midnight ⟨2024, 2, 29, by decide, by decide, by decide⟩)

/--
The first call removes the buckets it has listed, the second call is made, and only then the first
call goes on to take the buckets out of the bookkeeping set.
-/
def cutIn : List Nat :=
  List.replicate 3 0 ++ List.replicate 13 1 ++ List.replicate 3 0

end Race

theorem raced_cutIn :
    "a" ≠ ""
      ∧ (∀ p ∈ ((Race.start .standard [Race.once] [.reset "a", Race.once]).run
        Race.cutIn).calls, p.Ended)
      ∧ Raced (KeySpace.standard.bookkeeping "a") (KeySpace.standard.years "a")
        ((Race.start .standard [Race.once] [.reset "a", Race.once]).run
          Race.cutIn).trace := by
  have hname : "a" ≠ "" := by
    decide
  have hended : ∀ p ∈ ((Race.start .standard [Race.once] [.reset "a", Race.once]).run
      Race.cutIn).calls, p.Ended := by
    decide +kernel
  have hunrecorded : KeySpace.standard.years "a" ∈ ((Race.start .standard [Race.once]
      [.reset "a", Race.once]).run Race.cutIn).data.hashes ∧ KeySpace.standard.years "a" ∉
        ((Race.start .standard [Race.once] [.reset "a", Race.once]).run
          Race.cutIn).data.members (KeySpace.standard.bookkeeping "a") := by
    decide +kernel
  obtain ⟨-, -, hbuckets⟩ := reset_after_race .standard [Race.once]
    [.reset "a", Race.once] Race.cutIn hname hended
  exact ⟨hname, hended, (hbuckets _ (KeySpace.isBucketOf_years _ _)).1.1 hunrecorded⟩

/--
Increments and resets of one counter can leave a bucket unrecorded although all of them have ended.
-/
theorem not_recorded_after_race : ¬∀ (keys : KeySpace) (before requests : List Request)
    (schedule : List Nat) (name key : String),
    (∀ r ∈ requests, r = .reset name ∨ ∃ amount instant, r = .increment name amount instant) →
      (∀ p ∈ ((Race.start keys before requests).run schedule).calls, p.Ended) →
        keys.IsBucketOf name key →
          key ∈ ((Race.start keys before requests).run schedule).data.hashes →
            key ∈ ((Race.start keys before requests).run schedule).data.members
              (keys.bookkeeping name) := by
  intro h
  have hmember := h .standard [Race.once] [.reset "a", Race.once] Race.cutIn "a"
    (KeySpace.standard.years "a") (by simp [Race.once]) (by decide +kernel)
    (KeySpace.isBucketOf_years _ _) (by decide +kernel)
  revert hmember
  decide +kernel

end Rollup.Store
