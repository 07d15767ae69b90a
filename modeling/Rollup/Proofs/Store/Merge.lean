import Rollup.Proofs.Store.Grown
import Rollup.Proofs.Store.Race
import Rollup.Proofs.Store.Strict

/-!
This module contains increments that run at the same time, command by command. The main statement is
`increments_merge`: however they are interleaved, they leave the same data as one after the other.
-/

namespace Rollup

open Rollup.Store Rollup.Time

/--
The commands of an increment, the records of new buckets aside.
-/
def Request.additions (keys : KeySpace) : Request → List Command
  | .increment name amount instant =>
    if name = "" then []
    else (keys.levels name instant).map (fun (key, field) => .hincrby key field amount)
      ++ [.sadd keys.names name, .incrBy (keys.total name) amount]
  | _ => []

theorem Request.eq_increment_of_adds? {keys : KeySpace} {r : Request} {c : Command}
    (hc : c ∈ r.additions keys) {place : Place} {amount : Count} (h : c.adds? place = some amount) :
    ∃ name instant, r = .increment name amount instant := by
  cases r with
  | increment name a instant =>
    refine ⟨name, instant, ?_⟩
    simp only [additions] at hc
    split at hc
    · cases hc
    · rcases List.mem_append.1 hc with hc | hc
      · obtain ⟨level, -, rfl⟩ := List.mem_map.1 hc
        rw [Option.some.inj (Option.ite_none_right_eq_some.1 h).2]
      · rcases List.mem_cons.1 hc with rfl | hc
        · cases h
        · rw [List.mem_singleton.1 hc] at h
          rw [Option.some.inj (Option.ite_none_right_eq_some.1 h).2]
  | _ => cases hc

namespace Store

/--
A program goes on to make some additions for the named counter, in their order, and ends well if none
is refused. A bucket that may be new is recorded directly after it was counted.
-/
inductive Owes (keys : KeySpace) (name : String) {α : Type} :
    Option String → List Command → Program α → Prop where
  | done (a : α) : Owes keys name none [] (.done (.ok a))
  | report (event : Event) {owed : List Command} {next : Program α}
    (rest : Owes keys name none owed next) : Owes keys name none owed (.report event next)
  | count (key field : String) (amount : Count) (bucket : keys.IsBucketOf name key)
    {owed : List Command} {next : Except Failure Count → Program α}
    (rest : ∀ value, Owes keys name (if value = amount then some key else none) owed
      (next (.ok value))) :
    Owes keys name none (.hincrby key field amount :: owed) (.call (.hincrby key field amount) next)
  | record (key : String) (bucket : keys.IsBucketOf name key) {owed : List Command}
    {next : Except Failure Unit → Program α} (rest : Owes keys name none owed (next (.ok ()))) :
    Owes keys name (some key) owed (.call (.sadd (keys.bookkeeping name) key) next)
  | put {owed : List Command} {next : Except Failure Unit → Program α}
    (rest : Owes keys name none owed (next (.ok ()))) :
    Owes keys name none (.sadd keys.names name :: owed) (.call (.sadd keys.names name) next)
  | total (amount : Count) {owed : List Command} {next : Except Failure Count → Program α}
    (rest : ∀ value, Owes keys name none owed (next (.ok value))) :
    Owes keys name none (.incrBy (keys.total name) amount :: owed)
      (.call (.incrBy (keys.total name) amount) next)

namespace Owes

variable {keys : KeySpace} {name : String} {α β : Type} {recording : Option String}
variable {owed more : List Command} {p : Program α}

theorem bind {next : α → Program β} (h : Owes keys name recording owed p)
    (hnext : ∀ a, Owes keys name none more (next a)) :
    Owes keys name recording (owed ++ more) (p.bind next) := by
  induction h with
  | done a => exact hnext a
  | report event _ ih => exact report event ih
  | count key field amount bucket _ ih => exact count key field amount bucket ih
  | record key bucket _ ih => exact record key bucket ih
  | put _ ih => exact put ih
  | total amount _ ih => exact total amount ih

theorem map (h : Owes keys name recording owed p) (f : α → β) :
    Owes keys name recording owed (f <$> p) := by
  have := h.bind fun a => done (f a)
  rwa [List.append_nil] at this

theorem not_readAll {places : List String} {next : Fetched → Program α} :
    ¬Owes keys name recording owed (.readAll places next) := by
  rintro ⟨⟩

theorem of_report {event : Event} (h : Owes keys name recording owed (.report event p)) :
    Owes keys name none owed p := by
  cases h with
  | report _ rest => exact rest

theorem eq_nil_of_ended (h : Owes keys name recording owed p) (hp : p.Ended) : owed = [] := by
  cases p with
  | done result =>
    cases h
    rfl
  | call c next => cases hp
  | readAll places next => cases hp
  | report event next => cases hp

theorem branch {c : Prop} [Decidable c] {q : Program α}
    (hp : c → Owes keys name recording owed p) (hq : ¬c → Owes keys name recording owed q) :
    Owes keys name recording owed (if c then p else q) := by
  split
  · next h => exact hp h
  · next h => exact hq h

end Owes

namespace Counters

open Owes

variable {keys : KeySpace} {name key field : String} {amount : Count}

theorem owes_countIn (hkey : keys.IsBucketOf name key) (field : String) (amount : Count) :
    Owes keys name none [.hincrby key field amount]
      (countIn (keys.bookkeeping name) key field amount) := by
  apply Owes.count _ _ _ hkey
  intro value
  change Owes keys name _ [] (if value = amount then _ else _)
  apply branch
  · intro hvalue
    rw [if_pos hvalue]
    apply Owes.record key hkey
    exact .done ()
  · intro hvalue
    rw [if_neg hvalue]
    exact .done ()

theorem owes_countAll (amount : Count) {levels : List (String × String)}
    (hlevels : ∀ level ∈ levels, keys.IsBucketOf name level.1) :
    Owes keys name none (levels.map fun (key, field) => .hincrby key field amount)
      (increment.countAll keys name amount levels) := by
  induction levels with
  | nil => exact .done ()
  | cons level levels ih =>
    apply (owes_countIn (hlevels level List.mem_cons_self) level.2 amount).bind
    intro _
    apply ih
    intro l hl
    exact hlevels l (List.mem_cons_of_mem _ hl)

theorem owes_increment (hname : name ≠ "") (amount : Count) (instant : Instant) :
    Owes keys name none (Request.additions keys (.increment name amount instant))
      (increment keys name amount instant) := by
  have hadditions : Request.additions keys (.increment name amount instant) = _ := if_neg hname
  rw [hadditions]
  unfold increment checkName
  rw [if_neg hname]
  change Owes keys name none ([] ++ _) _
  apply Owes.bind (p := liftExcept (.ok ())) (.done ())
  intro _
  apply (owes_countAll amount fun level hlevel => KeySpace.isBucketOf_of_mem_levels hlevel).bind
  intro _
  apply Owes.put
  apply Owes.total
  intro total
  exact Owes.report _ (.done total)

end Counters

/--
What a call has still to do: an increment goes on, or it was refused before it did anything.
-/
def StillOwes (keys : KeySpace) {α : Type} (recording : Option String) (owed : List Command)
    (p : Program α) : Prop :=
  (∃ name, Owes keys name recording owed p)
    ∨ (recording = none ∧ owed = [] ∧ ∃ e, p = .done (.error e))

theorem Counters.stillOwes_answer {keys : KeySpace} {r : Request} (hr : r.IsIncrement) :
    StillOwes keys none (r.additions keys) (answer keys r) := by
  cases r with
  | increment name amount instant =>
    by_cases hname : name = ""
    · subst hname
      exact Or.inr ⟨rfl, rfl, _, rfl⟩
    · exact Or.inl ⟨name, (owes_increment hname amount instant).map _⟩
  | _ => cases hr

section

variable {keys : KeySpace} {name : String} {α : Type} {recording : Option String} {d d₀ : Data}
variable {commands sent owed others : List Command}

/--
The next command of a call makes the next of its additions, or it records the bucket that was
counted last.
-/
theorem Owes.step {c : Command} {next : Except Failure c.Reply → Program α}
    (h : Owes keys name recording owed (.call c next)) (hroom : d₀.HasRoomFor commands)
    (hgrown : Data.Grown keys sent d₀ d) (hperm : (sent ++ (owed ++ others)).Perm commands)
    (hcounted : ∀ key, recording = some key → Counted sent key) :
    c.verb ≠ .srem ∧ ∃ now rest recording', owed = now ++ rest
      ∧ Owes keys name recording' rest (next (Data.send c d).1)
      ∧ Data.Grown keys (sent ++ now) d₀ (Data.send c d).2
      ∧ ∀ key, recording' = some key → Counted (sent ++ now) key := by
  cases h with
  | @count key field amount bucket rest next hrest =>
    have hadds : (Command.hincrby key field amount).adds? (.field key field) = some amount :=
      if_pos rfl
    obtain ⟨⟨value, hvalue⟩, hbumped⟩ :=
      Data.bumped_send hadds (hgrown.isSome_add? hroom hperm hadds)
    change Count at value
    refine ⟨by simp [Command.verb], [.hincrby key field amount], rest,
      if value = amount then some key else none, rfl, ?_, hgrown.bump hadds hbumped, ?_⟩
    · rw [hvalue]
      exact hrest value
    · intro k hk
      split at hk
      · cases hk
        exact counted_append_singleton.2 (Or.inr ⟨field, by rw [hadds]; rfl⟩)
      · cases hk
  | @record key bucket _ next hrest =>
    refine ⟨by simp [Command.verb], [], owed, none, rfl, hrest, ?_, by simp⟩
    rw [List.append_nil]
    exact hgrown.record bucket (hcounted key rfl)
  | @put rest next hrest =>
    exact ⟨by simp [Command.verb], [.sadd keys.names name], rest, none, rfl, hrest,
      hgrown.put keys.names name, by simp⟩
  | @total amount rest next hrest =>
    have hadds : (Command.incrBy (keys.total name) amount).adds? (.string (keys.total name))
        = some amount := if_pos rfl
    obtain ⟨⟨value, hvalue⟩, hbumped⟩ :=
      Data.bumped_send hadds (hgrown.isSome_add? hroom hperm hadds)
    refine ⟨by simp [Command.verb], [.incrBy (keys.total name) amount], rest, none, rfl, ?_,
      hgrown.bump hadds hbumped, by simp⟩
    rw [hvalue]
    exact hrest value

/--
A call that runs alone makes all its additions.
-/
theorem Owes.run {p : Program α} (h : Owes keys name recording owed p)
    (hroom : d₀.HasRoomFor commands) (hgrown : Data.Grown keys sent d₀ d)
    (hperm : (sent ++ (owed ++ others)).Perm commands)
    (hcounted : ∀ key, recording = some key → Counted sent key) :
    Data.Grown keys (sent ++ owed) d₀ (p.run Data.send.bare d).2 := by
  induction p generalizing recording owed sent d with
  | done result =>
    cases h
    rwa [List.append_nil]
  | call c next ih =>
    obtain ⟨-, now, rest, recording', rfl, hrest, hgrown', hcounted'⟩ :=
      h.step hroom hgrown hperm hcounted
    rw [List.append_assoc, ← List.append_assoc] at hperm
    rw [← List.append_assoc]
    exact ih _ hrest hgrown' hperm hcounted'
  | readAll places next ih => cases h
  | report event next ih =>
    cases h with
    | report _ hrest => exact ih hrest hgrown hperm hcounted

theorem Data.Grown.after {requests : List Request} (hgrown : Data.Grown keys sent d₀ d)
    (hincr : ∀ r ∈ requests, r.IsIncrement) (hroom : d₀.HasRoomFor commands)
    (hperm : (sent ++ (requests.flatMap (Request.additions keys) ++ others)).Perm commands) :
    Data.Grown keys (sent ++ requests.flatMap (Request.additions keys)) d₀
      (d.after keys requests) := by
  induction requests generalizing sent d with
  | nil => simpa [Data.after] using hgrown
  | cons r requests ih =>
    rw [List.flatMap_cons, List.append_assoc] at hperm
    have hfirst : Data.Grown keys (sent ++ r.additions keys) d₀
        ((Counters.answer keys r).run Data.send.bare d).2 := by
      have hstill : StillOwes keys none (r.additions keys) (Counters.answer keys r) :=
        Counters.stillOwes_answer (hincr r List.mem_cons_self)
      rcases hstill with ⟨name, howes⟩ | ⟨-, hnone, e, he⟩
      · exact howes.run hroom hgrown hperm (by simp)
      · rw [hnone, he, List.append_nil]
        exact hgrown
    rw [List.flatMap_cons, ← List.append_assoc]
    apply ih hfirst (fun r' hr' => hincr r' (List.mem_cons_of_mem _ hr'))
    rwa [List.append_assoc]

end

/--
A call on its way, with the additions that it has still to make.
-/
structure Underway (keys : KeySpace) (α : Type) where
  call : Program α
  -- the bucket that the call has just counted and will record
  recording : Option String
  owed : List Command
  stillOwes : StillOwes keys recording owed call

/--
Calls that run at the same time have made some additions, and have the rest of them still to make.
-/
structure Merging (keys : KeySpace) {α : Type} (d₀ : Data) (commands sent : List Command)
    (underway : List (Underway keys α)) (s : Race α) : Prop where
  calls : s.calls = underway.map Underway.call
  additions : (sent ++ underway.flatMap Underway.owed).Perm commands
  grown : Data.Grown keys sent d₀ s.data
  counted : ∀ u ∈ underway, ∀ key, u.recording = some key → Counted sent key
  trace : ∀ x ∈ s.trace, x.command.verb ≠ .srem

theorem flatMap_perm_eraseIdx {α β : Type} {xs : List α} {i : Nat} (hi : i < xs.length)
    (f : α → List β) : (xs.flatMap f).Perm (f xs[i] ++ (xs.eraseIdx i).flatMap f) :=
  (List.getElem_cons_eraseIdx_perm hi).symm.flatMap_right f

namespace Merging

variable {keys : KeySpace} {α : Type} {d₀ : Data} {commands sent : List Command}
variable {underway : List (Underway keys α)} {s : Race α}

/--
A call that has not ended is an increment, and was not refused.
-/
theorem owes_of_getElem? (h : Merging keys d₀ commands sent underway s) {i : Nat} {p : Program α}
    (hp : s.calls[i]? = some p) (hgoing : ¬p.Ended) : ∃ (hi : i < underway.length) (name : String),
      Owes keys name underway[i].recording underway[i].owed p := by
  rw [h.calls, List.getElem?_map] at hp
  obtain ⟨u, hu, rfl⟩ := Option.map_eq_some_iff.1 hp
  obtain ⟨hi, rfl⟩ := List.getElem?_eq_some_iff.1 hu
  rcases underway[i].stillOwes with ⟨name, howes⟩ | ⟨-, -, e, he⟩
  · exact ⟨hi, name, howes⟩
  · rw [he] at hgoing
    exact absurd trivial hgoing

theorem advance {i : Nat} (hi : i < underway.length) {u : Underway keys α} {now : List Command}
    {data : Data} {trace : List Sent} (h : Merging keys d₀ commands sent underway s)
    (howed : underway[i].owed = now ++ u.owed) (hgrown : Data.Grown keys (sent ++ now) d₀ data)
    (hcounted : ∀ key, u.recording = some key → Counted (sent ++ now) key)
    (htrace : ∀ x ∈ trace, x.command.verb ≠ .srem) :
    Merging keys d₀ commands (sent ++ now) (underway.set i u)
      ⟨data, s.calls.set i u.call, trace⟩ where
  calls := by rw [h.calls, List.map_set]
  additions := by
    have hset : i < (underway.set i u).length := by rwa [List.length_set]
    have hbefore := flatMap_perm_eraseIdx hi Underway.owed
    have hafter := flatMap_perm_eraseIdx hset Underway.owed
    rw [List.getElem_set_self, List.eraseIdx_set_eq] at hafter
    rw [howed, List.append_assoc] at hbefore
    rw [List.append_assoc]
    exact ((hafter.append_left now).append_left sent).trans
      ((hbefore.symm.append_left sent).trans h.additions)
  grown := hgrown
  counted := by
    intro v hv
    rcases List.mem_or_eq_of_mem_set hv with hv | rfl
    · intro key hkey
      exact (h.counted v hv key hkey).mono (List.subset_append_left _ _)
    · exact hcounted
  trace := htrace

theorem step (hroom : d₀.HasRoomFor commands) (h : Merging keys d₀ commands sent underway s)
    (i : Nat) : ∃ sent' underway', Merging keys d₀ commands sent' underway' (s.step i) := by
  unfold Race.step
  split
  · next c next hcall =>
    obtain ⟨hi, name, howes⟩ := h.owes_of_getElem? hcall not_false
    have hperm := ((flatMap_perm_eraseIdx hi Underway.owed).symm.append_left sent).trans h.additions
    obtain ⟨hverb, now, rest, recording, howed, hrest, hgrown, hcounted⟩ :=
      howes.step hroom h.grown hperm (h.counted _ (List.getElem_mem hi))
    let u : Underway keys α := ⟨_, recording, rest, Or.inl ⟨name, hrest⟩⟩
    refine ⟨_, underway.set i u, h.advance hi howed hgrown hcounted ?_⟩
    intro x hx
    rcases List.mem_append.1 hx with hx | hx
    · exact h.trace x hx
    · rw [List.mem_singleton.1 hx]
      exact hverb
  · next places next hcall =>
    obtain ⟨hi, name, howes⟩ := h.owes_of_getElem? hcall not_false
    exact absurd howes Owes.not_readAll
  · next event next hcall =>
    obtain ⟨hi, name, howes⟩ := h.owes_of_getElem? hcall not_false
    let u : Underway keys α := ⟨next, none, _, Or.inl ⟨name, howes.of_report⟩⟩
    have hgrown : Data.Grown keys (sent ++ []) d₀ s.data := by
      rw [List.append_nil]
      exact h.grown
    exact ⟨_, underway.set i u, h.advance hi rfl hgrown (by simp [u]) h.trace⟩
  · exact ⟨sent, underway, h⟩
  · exact ⟨sent, underway, h⟩

theorem run (hroom : d₀.HasRoomFor commands) (h : Merging keys d₀ commands sent underway s)
    (schedule : List Nat) :
    ∃ sent' underway', Merging keys d₀ commands sent' underway' (s.run schedule) := by
  induction schedule generalizing sent underway s with
  | nil => exact ⟨sent, underway, h⟩
  | cons i schedule ih =>
    obtain ⟨sent', underway', h'⟩ := h.step hroom i
    exact ih h'

/--
Once all calls have ended, all additions are made.
-/
theorem perm_of_ended (h : Merging keys d₀ commands sent underway s)
    (hended : ∀ p ∈ s.calls, p.Ended) : sent.Perm commands := by
  have hnone : underway.flatMap Underway.owed = [] := by
    rw [List.flatMap_eq_nil_iff]
    intro u hu
    have hend : u.call.Ended := by
      apply hended
      rw [h.calls]
      exact List.mem_map_of_mem hu
    obtain ⟨call, recording, owed, hstill⟩ := u
    rcases hstill with ⟨name, howes⟩ | ⟨-, rfl, -⟩
    · exact howes.eq_nil_of_ended hend
    · rfl
  have := h.additions
  rwa [hnone, List.append_nil] at this

end Merging

namespace Race

theorem exists_merging_start (keys : KeySpace) (before : List Request) {requests : List Request}
    (hincr : ∀ r ∈ requests, r.IsIncrement) :
    ∃ underway, Merging keys (Data.after keys .empty before)
      (requests.flatMap (Request.additions keys)) [] underway (start keys before requests) := by
  refine ⟨requests.pmap (fun r hr => ⟨Counters.answer keys r, none, r.additions keys,
    Counters.stillOwes_answer hr⟩) hincr, ?calls, ?additions, .nil keys _, ?counted, ?trace⟩
  case calls => rw [List.map_pmap, List.pmap_eq_map, start]
  case additions =>
    rw [List.nil_append, List.flatMap_def, List.map_pmap, List.pmap_eq_map, ← List.flatMap_def]
  case counted =>
    intro u hu key hkey
    obtain ⟨r, hr, rfl⟩ := List.mem_pmap.1 hu
    cases hkey
  case trace =>
    intro x hx
    cases hx

end Race

/--
Increments that run at the same time lose nothing, provided that there is room for them. Once all of
them have ended, each count has grown by the amounts for its place, and the data are those that the
same increments leave one after the other, in any order.
-/
theorem increments_merge (keys : KeySpace) (before requests : List Request) (schedule : List Nat)
    (hincr : ∀ r ∈ requests, r.IsIncrement)
    (hroom : (Data.after keys .empty before).HasRoomFor
      (requests.flatMap (Request.additions keys)))
    (hended : ∀ p ∈ ((Race.start keys before requests).run schedule).calls, p.Ended) :
    let d := Data.after keys .empty before
    let s := (Race.start keys before requests).run schedule
    (∀ place, (s.data.countAt place).val = (d.countAt place).val
        + (((requests.flatMap (Request.additions keys)).filterMap
          (Command.adds? place)).map Count.val).sum)
      ∧ ∀ order : List Request, order.Perm requests → s.data = d.after keys order := by
  intro d s
  obtain ⟨underway, hstart⟩ := Race.exists_merging_start keys before hincr
  obtain ⟨sent, underway', hmerging⟩ := hstart.run hroom schedule
  have hperm := hmerging.perm_of_ended hended
  refine ⟨?_, ?_⟩
  · intro place
    rw [hmerging.grown.count, ((hperm.filterMap _).map _).sum_eq]
  · intro order horder
    have hadditions := horder.flatMap_right (Request.additions keys)
    have hseq : Data.Grown keys ([] ++ order.flatMap (Request.additions keys)) d
        (d.after keys order) := by
      apply (Data.Grown.nil keys d).after (fun r hr => hincr r (horder.mem_iff.1 hr)) hroom
      rwa [List.nil_append, List.append_nil]
    apply hmerging.grown.eq_of_perm hseq (hperm.trans hadditions.symm)
    · intro name key hkey hhash
      have hracing := (Race.racing_start hkey before requests).run hkey schedule
      apply Classical.byContradiction
      intro hmember
      -- no increment takes a bucket out of a bookkeeping set
      obtain ⟨earlier, x, later, htrace, ⟨htakes, -⟩, -⟩ :=
        (hracing.unrecorded_iff_raced hended).1 ⟨hhash, hmember⟩
      obtain ⟨gone, hcommand, -⟩ := htakes.command_eq
      apply hmerging.trace x (by rw [htrace]; simp)
      rw [hcommand]
      rfl
    · exact (((Data.booked_empty keys).after before).after order).recorded

/--
There is room for increments of small amounts.
-/
theorem hasRoomFor_additions {keys : KeySpace} {d : Data} {requests : List Request} (bound : Nat)
    (hamounts : ∀ name amount instant, .increment name amount instant ∈ requests →
      amount.val.natAbs ≤ bound)
    (hcounts : ∀ place, (d.countAt place).val.natAbs
      + (requests.flatMap (Request.additions keys)).length * bound < 2 ^ (63 : Nat)) :
    d.HasRoomFor (requests.flatMap (Request.additions keys)) := by
  apply Data.hasRoomFor_of_natAbs_le _ hcounts
  intro c hc place amount hadds
  obtain ⟨r, hr, hc⟩ := List.mem_flatMap.1 hc
  obtain ⟨name, instant, rfl⟩ := Request.eq_increment_of_adds? hc hadds
  exact hamounts name amount instant hr

/--
Amounts that cancel each other and an amount of zero, in buckets that are new. The three calls take
turns, one step each.
-/
theorem increments_merge_of_cancelling :
    let noon : Instant := ⟨⟨2024, 2, 29, by decide, by decide, by decide⟩, 43200, 0, by decide,
      by decide, by decide⟩
    let requests : List Request := [.increment "a" ⟨5, by decide, by decide⟩ noon,
      .increment "a" ⟨-5, by decide, by decide⟩ noon, .increment "a" 0 noon]
    let s := (Race.start .standard [] requests).run ((List.range 39).map (· % 3))
    (∀ r ∈ requests, r.IsIncrement)
      ∧ (Data.after .standard .empty []).HasRoomFor (requests.flatMap (Request.additions .standard))
      ∧ (∀ p ∈ s.calls, p.Ended)
      ∧ s.data = (Data.after .standard .empty []).after .standard requests.reverse := by
  intro noon requests s
  have hincr : ∀ r ∈ requests, r.IsIncrement := by
    simp [requests, Request.IsIncrement]
  have hroom : (Data.after .standard .empty []).HasRoomFor
      (requests.flatMap (Request.additions .standard)) := by
    apply hasRoomFor_additions 5
    · intro name amount instant h
      simp only [requests, List.mem_cons, Request.increment.injEq, List.not_mem_nil, or_false] at h
      rcases h with ⟨-, rfl, -⟩ | ⟨-, rfl, -⟩ | ⟨-, rfl, -⟩
      all_goals decide
    · intro place
      have hzero : (Data.after .standard .empty []).countAt place = 0 := by
        cases place <;> simp [Data.after, Data.empty, Data.countAt, Data.count, Data.hash]
      rw [hzero]
      decide +kernel
  have hended : ∀ p ∈ s.calls, p.Ended := by
    decide +kernel
  exact ⟨hincr, hroom, hended, (increments_merge .standard [] requests _ hincr hroom hended).2
    requests.reverse (List.reverse_perm requests)⟩

end Store

end Rollup
