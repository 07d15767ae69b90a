import Rollup.Proofs.KeySpace
import Rollup.Proofs.Store.Data
import Rollup.Proofs.Store.Run

/-!
This module contains increments of counters in a store in which nothing fails: an increment either
adds its amount to the field of each level and to the total, or it is refused because one of them
has no room.
-/

namespace Rollup.Store

open Rollup.Time

/--
The amount was added to some fields, each given with its key, and nothing else is new but members of
other sets than that of the names.
-/
structure Data.Added (keys : KeySpace) (amount : Count) (levels : List (String × String))
    (d after : Data) : Prop where
  strings : after.strings = d.strings
  names : ∀ n, n ∈ after.members keys.names ↔ n ∈ d.members keys.names
  fields : ∀ key field, field ∈ after.hash key → field ∈ d.hash key ∨ (key, field) ∈ levels
  count : ∀ key field, (after.count key field).val
    = (d.count key field).val + if (key, field) ∈ levels then amount.val else 0

namespace Data.Added

variable {keys : KeySpace} {amount : Count} {d after : Data}

theorem nil (keys : KeySpace) (amount : Count) (d : Data) : Added keys amount [] d d where
  strings := rfl
  names := fun _ => Iff.rfl
  fields := fun _ _ h => Or.inl h
  count := by simp

theorem cons {level : String × String} {levels : List (String × String)} {between : Data}
    (hfirst : Added keys amount [level] d between) (hrest : Added keys amount levels between after)
    (hfresh : level ∉ levels) : Added keys amount (level :: levels) d after where
  strings := hrest.strings.trans hfirst.strings
  names := fun n => (hrest.names n).trans (hfirst.names n)
  fields := by
    intro key field h
    rcases hrest.fields key field h with h | h
    · rcases hfirst.fields key field h with h | h
      · exact Or.inl h
      · rw [List.mem_singleton.1 h]
        exact Or.inr List.mem_cons_self
    · exact Or.inr (List.mem_cons_of_mem _ h)
  count := by
    intro key field
    rw [hrest.count, hfirst.count]
    by_cases hlevel : (key, field) = level
    · subst hlevel
      simp [hfresh]
    · simp [hlevel]

theorem hincrby {key field : String} {value : Count} (hnames : keys.names ≠ key)
    (h : d.hincrby key field amount = .ok (value, after)) :
    Added keys amount [(key, field)] d after where
  strings := by rw [(hincrby_eq_ok h).2]
  names := by
    intro n
    rw [(hincrby_eq_ok h).2]
    rfl
  fields := by
    intro k f hf
    rw [hash_hincrby h] at hf
    split at hf
    · next hk =>
      subst hk
      rw [Std.ExtTreeMap.mem_insert, Std.LawfulEqCmp.compare_eq_iff_eq] at hf
      rcases hf with rfl | hf
      · exact Or.inr List.mem_cons_self
      · exact Or.inl hf
    · exact Or.inl hf
  count := by
    intro k f
    rw [count_hincrby h]
    by_cases heq : k = key ∧ f = field
    · obtain ⟨rfl, rfl⟩ := heq
      simp [val_hincrby h]
    · simp [heq]

theorem sadd {levels : List (String × String)} {key member : String} (hnames : keys.names ≠ key)
    (h : Added keys amount levels d after) : Added keys amount levels d (after.sadd key member) where
  strings := h.strings
  names := by
    intro n
    rw [mem_members_sadd, h.names]
    simp [hnames]
  fields := h.fields
  count := h.count

end Data.Added

namespace Counters

variable {σ : Type} {keys : KeySpace} {bookkeeping key field : String} {amount : Count} {d : Data}

theorem run_countIn_on (rt : Runtime σ) (bookkeeping key field : String) (amount : Count) (s : σ) :
    (countIn bookkeeping key field amount).run rt s
      = match rt.send (.hincrby key field amount) s with
        | (.ok (value : Count), s) =>
          if value = amount then
            let (recorded, s) := rt.send (.sadd bookkeeping key) s
            (recorded.mapError .store, s)
          else (.ok (), s)
        | (.error failure, s) => (.error (.store failure), s) := by
  refine (Program.run_send_bind rt (.hincrby key field amount) _ s).trans ?_
  generalize rt.send (.hincrby key field amount) s = counted
  obtain ⟨result, s'⟩ := counted
  cases result with
  | error failure => rfl
  | ok value =>
    change Count at value
    refine (Program.run_ite rt (value = amount) _ _ s').trans ?_
    simp only
    split
    · exact Program.run_send rt (.sadd bookkeeping key) s'
    · rfl

theorem run_countIn : (countIn bookkeeping key field amount).run Data.send.bare d
    = match d.hincrby key field amount with
      | .ok (value, after) => (.ok (), if value = amount then after.sadd bookkeeping key else after)
      | .error failure => (.error (.store failure), d) := by
  rw [run_countIn_on]
  simp only [Client.bare, Data.send]
  cases d.hincrby key field amount with
  | error failure => rfl
  | ok result =>
    obtain ⟨value, after⟩ := result
    simp only
    split <;> rfl

theorem run_countIn_of_eq_none (h : (d.count key field).add? amount = none) :
    (countIn bookkeeping key field amount).run Data.send.bare d
      = (.error (.store Data.overflow), d) := by
  rw [run_countIn]
  simp [Data.hincrby, h]

theorem run_countIn_of_isSome (bookkeeping : String) (hnames : keys.names ≠ key)
    (hbookkeeping : keys.names ≠ bookkeeping) (h : ((d.count key field).add? amount).isSome) :
    ∃ after, (countIn bookkeeping key field amount).run Data.send.bare d = (.ok (), after)
      ∧ Data.Added keys amount [(key, field)] d after := by
  obtain ⟨value, hvalue⟩ := Option.isSome_iff_exists.1 h
  obtain ⟨between, hincr⟩ : ∃ between, d.hincrby key field amount = .ok (value, between) := by
    simp [Data.hincrby, hvalue]
  have hadded := Data.Added.hincrby hnames hincr
  rw [run_countIn, hincr]
  refine ⟨_, rfl, ?_⟩
  split
  · exact hadded.sadd hbookkeeping
  · exact hadded

theorem count_eq_of_added {l : String × String} {between : Data}
    (h : Data.Added keys amount [(key, field)] d between) (hl : l ≠ (key, field)) :
    between.count l.1 l.2 = d.count l.1 l.2 := by
  apply Count.ext
  rw [h.count, if_neg, Int.add_zero]
  rw [List.mem_singleton]
  exact hl

theorem run_countAll_of_forall (name : String) {levels : List (String × String)} (hnodup : levels.Nodup)
    (hnames : ∀ level ∈ levels, keys.names ≠ level.1)
    (h : ∀ level ∈ levels, ((d.count level.1 level.2).add? amount).isSome) :
    ∃ after, (increment.countAll keys name amount levels).run Data.send.bare d = (.ok (), after)
      ∧ Data.Added keys amount levels d after := by
  induction levels generalizing d with
  | nil => exact ⟨d, rfl, .nil keys amount d⟩
  | cons level levels ih =>
    obtain ⟨key, field⟩ := level
    obtain ⟨hfresh, hnodup⟩ := List.nodup_cons.1 hnodup
    -- the levels differ, so adding to the first one takes no room from the others
    obtain ⟨between, hrun, hfirst⟩ := run_countIn_of_isSome (keys.bookkeeping name)
      (hnames (key, field) List.mem_cons_self) KeySpace.names_ne_bookkeeping
      (h (key, field) List.mem_cons_self)
    obtain ⟨after, hrest, hadded⟩ := ih hnodup
      (fun l hl => hnames l (List.mem_cons_of_mem _ hl)) (d := between) (by
        intro l hl
        rw [count_eq_of_added hfirst (fun heq => hfresh (heq ▸ hl))]
        exact h l (List.mem_cons_of_mem _ hl))
    refine ⟨after, ?_, hfirst.cons hadded hfresh⟩
    change ((countIn (keys.bookkeeping name) key field amount).bind fun _ =>
      increment.countAll keys name amount levels).run Data.send.bare d = _
    rw [Program.run_bind, hrun]
    exact hrest

theorem run_countAll_of_not_forall (name : String) {levels : List (String × String)}
    (hnodup : levels.Nodup) (hnames : ∀ level ∈ levels, keys.names ≠ level.1)
    (h : ¬∀ level ∈ levels, ((d.count level.1 level.2).add? amount).isSome) :
    ((increment.countAll keys name amount levels).run Data.send.bare d).1
      = .error (.store Data.overflow) := by
  induction levels generalizing d with
  | nil => simp at h
  | cons level levels ih =>
    obtain ⟨key, field⟩ := level
    obtain ⟨hfresh, hnodup⟩ := List.nodup_cons.1 hnodup
    change (((countIn (keys.bookkeeping name) key field amount).bind fun _ =>
      increment.countAll keys name amount levels).run Data.send.bare d).1 = _
    rw [Program.run_bind]
    -- the first level without room ends the program, whatever was added before
    cases hroom : (d.count key field).add? amount with
    | none =>
      rw [run_countIn_of_eq_none hroom]
    | some value =>
      obtain ⟨between, hrun, hfirst⟩ := run_countIn_of_isSome (keys.bookkeeping name)
        (hnames (key, field) List.mem_cons_self) KeySpace.names_ne_bookkeeping
        (Option.isSome_of_eq_some hroom)
      rw [hrun]
      apply ih hnodup (fun l hl => hnames l (List.mem_cons_of_mem _ hl))
      intro hall
      apply h
      intro l hl
      rcases List.mem_cons.1 hl with rfl | hl
      · exact Option.isSome_of_eq_some hroom
      · rw [← count_eq_of_added hfirst (fun heq => hfresh (heq ▸ hl))]
        exact hall l hl

end Counters

def Data.HasRoom (keys : KeySpace) (name : String) (amount : Count) (instant : Instant) (d : Data) :
    Prop :=
  (∀ level ∈ keys.levels name instant, ((d.count level.1 level.2).add? amount).isSome)
    ∧ ((d.strings.getD (keys.total name) 0).add? amount).isSome

/--
What an increment does to some data, the bookkeeping aside.
-/
structure Data.Incremented (keys : KeySpace) (name : String) (amount : Count) (instant : Instant)
    (total : Count) (d after : Data) : Prop where
  sum : (d.strings.getD (keys.total name) 0).add? amount = some total
  strings : after.strings = d.strings.insert (keys.total name) total
  names : ∀ n, n ∈ after.members keys.names ↔ n = name ∨ n ∈ d.members keys.names
  fields : ∀ key field, field ∈ after.hash key →
    field ∈ d.hash key ∨ (key, field) ∈ keys.levels name instant
  count : ∀ key field, (after.count key field).val
    = (d.count key field).val + if (key, field) ∈ keys.levels name instant then amount.val else 0

namespace Counters

variable {σ : Type} {keys : KeySpace} {name : String} {amount : Count} {instant : Instant} {d : Data}

theorem names_ne_of_mem_levels {level : String × String} (h : level ∈ keys.levels name instant) :
    keys.names ≠ level.1 := by
  obtain ⟨l, a, hkey⟩ := KeySpace.isBucketOf_of_mem_levels h
  rw [hkey]
  exact KeySpace.names_ne_bucket

theorem run_increment_on (rt : Runtime σ) (hname : name ≠ "") (amount : Count)
    (instant : Instant) (s : σ) :
    (increment keys name amount instant).run rt s
      = match (increment.countAll keys name amount (keys.levels name instant)).run rt s with
        | (.error e, s) => (.error e, s)
        | (.ok _, s) =>
          match rt.send (.sadd keys.names name) s with
          | (.error failure, s) => (.error (.store failure), s)
          | (.ok _, s) =>
            match rt.send (.incrBy (keys.total name) amount) s with
            | (.error failure, s) => (.error (.store failure), s)
            | (.ok total, s) => (.ok total, rt.report .incremented s) := by
  unfold increment checkName
  rw [if_neg hname]
  refine (Program.run_bind rt
    (increment.countAll keys name amount (keys.levels name instant)) _ s).trans ?_
  generalize (increment.countAll keys name amount (keys.levels name instant)).run rt s = counted
  obtain ⟨result, s₁⟩ := counted
  cases result with
  | error e => rfl
  | ok _ =>
    refine (Program.run_send_bind rt (.sadd keys.names name) _ s₁).trans ?_
    simp only
    generalize rt.send (.sadd keys.names name) s₁ = named
    obtain ⟨result, s₂⟩ := named
    cases result with
    | error failure => rfl
    | ok _ =>
      refine (Program.run_send_bind rt (.incrBy (keys.total name) amount) _ s₂).trans ?_
      simp only
      generalize rt.send (.incrBy (keys.total name) amount) s₂ = summed
      obtain ⟨result, s₃⟩ := summed
      cases result with
      | error failure => rfl
      | ok total => rfl

theorem run_increment {between : Data} (hname : name ≠ "")
    (h : (increment.countAll keys name amount (keys.levels name instant)).run Data.send.bare d
      = (.ok (), between)) :
    (increment keys name amount instant).run Data.send.bare d
      = match (between.sadd keys.names name).incrBy (keys.total name) amount with
        | .ok (total, after) => (.ok total, after)
        | .error failure => (.error (.store failure), between.sadd keys.names name) := by
  rw [run_increment_on Data.send.bare hname, h]
  simp only [Client.bare, Data.send]
  cases (between.sadd keys.names name).incrBy (keys.total name) amount with
  | ok result => rfl
  | error failure => rfl

theorem run_increment_of_hasRoom (hname : name ≠ "") (hnodup : (keys.levels name instant).Nodup)
    (h : d.HasRoom keys name amount instant) :
    ∃ total after, (increment keys name amount instant).run Data.send.bare d = (.ok total, after)
      ∧ d.Incremented keys name amount instant total after := by
  obtain ⟨hlevels, htotal⟩ := h
  obtain ⟨between, hrun, hadded⟩ := run_countAll_of_forall name hnodup
    (fun _ => names_ne_of_mem_levels) hlevels
  obtain ⟨total, htotal⟩ := Option.isSome_iff_exists.1 htotal
  rw [run_increment hname hrun]
  unfold Data.incrBy
  rw [Data.strings_sadd, hadded.strings, htotal]
  refine ⟨total, _, rfl, htotal, rfl, ?_, hadded.fields, hadded.count⟩
  intro n
  change n ∈ (between.sadd keys.names name).members keys.names ↔ _
  rw [Data.mem_members_sadd, hadded.names]
  simp

theorem run_increment_of_not_hasRoom (hname : name ≠ "")
    (hnodup : (keys.levels name instant).Nodup) (h : ¬d.HasRoom keys name amount instant) :
    ((increment keys name amount instant).run Data.send.bare d).1
      = .error (.store Data.overflow) := by
  -- the total comes last, so it only matters where all levels have room
  by_cases hlevels : ∀ level ∈ keys.levels name instant,
      ((d.count level.1 level.2).add? amount).isSome
  · obtain ⟨between, hrun, hadded⟩ := run_countAll_of_forall name hnodup
      (fun _ => names_ne_of_mem_levels) hlevels
    have htotal : (d.strings.getD (keys.total name) 0).add? amount = none :=
      Option.not_isSome_iff_eq_none.1 fun htotal => h ⟨hlevels, htotal⟩
    rw [run_increment hname hrun]
    unfold Data.incrBy
    rw [Data.strings_sadd, hadded.strings, htotal]
  · have hrefused := run_countAll_of_not_forall name hnodup
      (fun _ => names_ne_of_mem_levels) hlevels
    rw [run_increment_on Data.send.bare hname]
    generalize (increment.countAll keys name amount (keys.levels name instant)).run
      Data.send.bare d = out at hrefused
    obtain ⟨result, between⟩ := out
    cases hrefused
    rfl

end Counters

end Rollup.Store
