import Mathlib.Data.List.Forall2
import Rollup.Proofs.Store.Increment
import Rollup.Proofs.Store.Served

/-!
This module contains what increments leave in a store whose commands may fail. The main statement is
`counted_up_to_reached`: an increment counts once at each level that it reached, from coarse to fine,
and in the total if it succeeded.
-/

namespace Rollup.Store

open Rollup.Retry Rollup.Time

namespace Data

/--
The amount was added once for each of some places, which are fields given with their keys.
-/
structure Gained (amount : Count) (places : List (String × String)) (d after : Data) : Prop where
  strings : after.strings = d.strings
  fields : ∀ key field, field ∈ after.hash key ↔ field ∈ d.hash key ∨ (key, field) ∈ places
  count : ∀ key field, (after.count key field).val
    = (d.count key field).val + ((places.filter (· = (key, field))).map fun _ => amount.val).sum

namespace Gained

variable {amount : Count} {d between after : Data} {places more : List (String × String)}

theorem nil (amount : Count) (d : Data) : Gained amount [] d d where
  strings := rfl
  fields := by simp
  count := by simp

theorem append (h : Gained amount places d between) (h' : Gained amount more between after) :
    Gained amount (places ++ more) d after where
  strings := h'.strings.trans h.strings
  fields := by
    intro key field
    rw [h'.fields, h.fields, List.mem_append, or_assoc]
  count := by
    intro key field
    rw [h'.count, h.count, List.filter_append, List.map_append, List.sum_append, Int.add_assoc]

theorem hincrby {key field : String} {value : Count}
    (h : d.hincrby key field amount = .ok (value, after)) : Gained amount [(key, field)] d after where
  strings := by rw [(hincrby_eq_ok h).2]
  fields := by
    intro k f
    rw [hash_hincrby h]
    by_cases hk : k = key
    · subst hk
      rw [if_pos rfl, Std.ExtTreeMap.mem_insert, Std.LawfulEqCmp.compare_eq_iff_eq]
      simp [eq_comm, or_comm]
    · simp [hk]
  count := by
    intro k f
    rw [count_hincrby h]
    by_cases hplace : k = key ∧ f = field
    · obtain ⟨rfl, rfl⟩ := hplace
      simp [val_hincrby h]
    · have hother : (key, field) ≠ (k, f) := by
        rintro ⟨⟩
        exact hplace ⟨rfl, rfl⟩
      simp [hplace, hother]

theorem sadd {key member : String} {result : Except Failure Unit}
    (h : Gained amount places d between) (hget : MayGet (.sadd key member) between result after) :
    Gained amount places d after := by
  rcases hget with ⟨-, rfl⟩ | ⟨-, rfl⟩
  · exact h
  · exact ⟨h.strings, h.fields, h.count⟩

end Gained

end Data

namespace Counters

variable {σ : Type} {rt : Runtime σ} {data : σ → Data} {keys : KeySpace} {name : String}
variable {amount : Count}

theorem run_countIn_gained (hsend : Client.WorksOn rt.send data) (amount : Count)
    (bookkeeping key field : String) (s : σ) :
    let out := (countIn bookkeeping key field amount).run rt s
    ∃ places, places <+: [(key, field)] ∧ (data s).Gained amount places (data out.2)
      ∧ (out.1 = .ok () → places = [(key, field)]) := by
  intro out
  have hget := hsend (.hincrby key field amount) s
  have hout : out = _ := run_countIn_on rt bookkeeping key field amount s
  generalize rt.send (.hincrby key field amount) s = counted at hget hout
  obtain ⟨result, s'⟩ := counted
  cases result with
  | error failure =>
    refine ⟨[], List.nil_prefix, ?_, ?_⟩
    · rw [hout, hget.eq_of_error rfl]
      exact .nil amount (data s)
    · intro hok
      rw [hout] at hok
      cases hok
  | ok value =>
    refine ⟨[(key, field)], List.prefix_refl _, ?_, fun _ => rfl⟩
    obtain ⟨hvalue, hafter⟩ := hget.eq_of_ok rfl
    obtain ⟨after, hincr⟩ := Data.hincrby_of_send_eq_ok hvalue
    have hgained : (data s).Gained amount [(key, field)] (data s') := by
      rw [hafter]
      simp only [Data.send, hincr]
      exact .hincrby hincr
    rw [hout]
    simp only
    split
    · exact hgained.sadd (hsend (.sadd bookkeeping key) s')
    · exact hgained

theorem run_countAll_gained (hsend : Client.WorksOn rt.send data) (levels : List (String × String))
    (s : σ) :
    let out := (increment.countAll keys name amount levels).run rt s
    ∃ places, places <+: levels ∧ (data s).Gained amount places (data out.2)
      ∧ (out.1 = .ok () → places = levels) := by
  induction levels generalizing s with
  | nil => exact ⟨[], List.prefix_refl _, .nil amount (data s), fun _ => rfl⟩
  | cons level levels ih =>
    intro out
    obtain ⟨places, hfirst, hgained, hall⟩ := run_countIn_gained hsend amount
      (keys.bookkeeping name) level.1 level.2 s
    have hout : out = _ := Program.run_bind rt (countIn (keys.bookkeeping name) level.1 level.2 amount)
      (fun _ => increment.countAll keys name amount levels) s
    generalize (countIn (keys.bookkeeping name) level.1 level.2 amount).run rt s = first
      at hgained hall hout
    obtain ⟨result, s'⟩ := first
    cases result with
    | error e =>
      -- no further level is reached after a failure
      refine ⟨places, hfirst.trans (List.prefix_append [level] levels), ?_, ?_⟩
      · rw [hout]
        exact hgained
      · intro hok
        rw [hout] at hok
        cases hok
    | ok _ =>
      obtain ⟨more, hmore, hrest, hfull⟩ := ih s'
      rw [hall rfl] at hgained
      refine ⟨level :: more, ?_, ?_, ?_⟩
      · exact (List.prefix_cons_inj level).2 hmore
      · rw [hout]
        exact hgained.append hrest
      · intro hok
        rw [hout] at hok
        rw [hfull hok]

end Counters

/--
An increment that was tried: how many levels it reached, from coarse to fine, and whether it was
answered with success.
-/
structure Try where
  name : String
  amount : Count
  instant : Instant
  reached : Nat
  acknowledged : Bool

def Try.places (keys : KeySpace) (t : Try) : List (String × String) :=
  (keys.levels t.name t.instant).take t.reached

/--
What trying an increment makes of some data, the bookkeeping aside.
-/
structure Data.Took (keys : KeySpace) (t : Try) (d after : Data) : Prop where
  fields : ∀ key field, field ∈ after.hash key ↔ field ∈ d.hash key ∨ (key, field) ∈ t.places keys
  count : ∀ key field, (after.count key field).val = (d.count key field).val
    + (((t.places keys).filter (· = (key, field))).map fun _ => t.amount.val).sum
  totals : ∀ n, keys.total n ∈ after.strings
    ↔ keys.total n ∈ d.strings ∨ (t.acknowledged ∧ t.name = n)
  total : ∀ n, (after.strings.getD (keys.total n) 0).val = (d.strings.getD (keys.total n) 0).val
    + if t.acknowledged ∧ t.name = n then t.amount.val else 0

namespace Data.Took

variable {keys : KeySpace} {name : String} {amount value : Count} {instant : Instant}
variable {d between after : Data} {places : List (String × String)}

theorem of_gained (h : d.Gained amount places after) (hfirst : places <+: keys.levels name instant) :
    d.Took keys ⟨name, amount, instant, places.length, false⟩ after := by
  have hplaces : (keys.levels name instant).take places.length = places :=
    (List.prefix_iff_eq_take.1 hfirst).symm
  constructor
  · simpa [Try.places, hplaces] using h.fields
  · simpa [Try.places, hplaces] using h.count
  · simp [h.strings]
  · simp [h.strings]

theorem of_incrBy (h : d.Gained amount (keys.levels name instant) between)
    (hincr : between.incrBy (keys.total name) amount = .ok (value, after)) :
    d.Took keys ⟨name, amount, instant, 5, true⟩ after := by
  obtain ⟨hsum, rfl⟩ := incrBy_eq_ok hincr
  have hvalue := Count.val_add? hsum
  rw [h.strings] at hvalue
  -- there are five levels, so all of them are the first five
  constructor
  · exact h.fields
  · exact h.count
  · intro n
    rw [Std.ExtTreeMap.mem_insert, Std.LawfulEqCmp.compare_eq_iff_eq, KeySpace.total_inj, h.strings]
    simp [or_comm]
  · intro n
    rw [Std.ExtTreeMap.getD_eq_getD_getElem?, getElem?_insert_eq_ite, h.strings]
    by_cases hn : name = n
    · subst hn
      simp [hvalue]
    · simp [hn, Ne.symm hn, Std.ExtTreeMap.getD_eq_getD_getElem?]

end Data.Took

namespace Counters

variable {σ : Type} {rt : Runtime σ} {data : σ → Data} {keys : KeySpace}

/--
An increment counts at the levels up to one that it reaches, and it succeeds with the total only.
-/
theorem run_increment_took (hsend : Client.WorksOn rt.send data)
    (hreport : ∀ event s, data (rt.report event s) = data s) (keys : KeySpace) (name : String)
    (amount : Count) (instant : Instant) (s : σ) :
    let out := (increment keys name amount instant).run rt s
    ∃ reached ≤ 5, (out.1.isOk → reached = 5)
      ∧ (data s).Took keys ⟨name, amount, instant, reached, out.1.isOk⟩ (data out.2) := by
  intro out
  by_cases hname : name = ""
  · have hout : out = (.error .emptyName, s) := by
      simp only [out, hname]
      rfl
    rw [hout]
    exact ⟨0, by omega, by simp [Except.isOk, Except.toBool],
      .of_gained (.nil amount (data s)) List.nil_prefix⟩
  · have hout : out = _ := run_increment_on rt hname amount instant s
    obtain ⟨places, hfirst, hgained, hall⟩ :=
      run_countAll_gained hsend (keys.levels name instant) s
    have hlength : places.length ≤ 5 := hfirst.length_le
    -- all but the last command leave the totals alone and end without success
    have hunfinished : ∀ {e : CounterError} {s' : σ}, (data s).Gained amount places (data s') →
        out = (.error e, s') → ∃ reached ≤ 5, (out.1.isOk → reached = 5)
          ∧ (data s).Took keys ⟨name, amount, instant, reached, out.1.isOk⟩ (data out.2) := by
      intro e s' hgained hout
      rw [hout]
      exact ⟨places.length, hlength, by simp [Except.isOk, Except.toBool],
        .of_gained hgained hfirst⟩
    generalize (increment.countAll keys name amount (keys.levels name instant)).run rt s = counted
      at hgained hall hout
    obtain ⟨result, s₁⟩ := counted
    cases result with
    | error e => exact hunfinished hgained hout
    | ok _ =>
      have hget := hsend (.sadd keys.names name) s₁
      simp only at hout
      generalize rt.send (.sadd keys.names name) s₁ = named at hget hout
      obtain ⟨result, s₂⟩ := named
      have hgained := hgained.sadd hget
      cases result with
      | error failure => exact hunfinished hgained hout
      | ok _ =>
        have hget := hsend (.incrBy (keys.total name) amount) s₂
        simp only at hout
        generalize rt.send (.incrBy (keys.total name) amount) s₂ = summed at hget hout
        obtain ⟨result, s₃⟩ := summed
        cases result with
        | error failure =>
          rw [← hget.eq_of_error rfl] at hgained
          exact hunfinished hgained hout
        | ok total =>
          obtain ⟨hsum, hafter⟩ := hget.eq_of_ok rfl
          obtain ⟨after, hincr⟩ := Data.incrBy_of_send_eq_ok hsum
          rw [hall rfl] at hgained
          have htook := Data.Took.of_incrBy hgained hincr
          rw [hout]
          refine ⟨5, Nat.le_refl 5, fun _ => rfl, ?_⟩
          rw [hreport, hafter]
          simp only [Data.send, hincr]
          exact htook

end Counters

/--
The amounts that were counted in a field of a bucket, once for each level that was reached there.
-/
def countedAt (keys : KeySpace) (tries : List Try) (key field : String) : List Int :=
  tries.flatMap fun t => ((t.places keys).filter (· = (key, field))).map fun _ => t.amount.val

def acknowledgedAmounts (tries : List Try) (name : String) : List Int :=
  (tries.filter fun t => t.acknowledged ∧ t.name = name).map fun t => t.amount.val

/--
Some data holds exactly what was counted: each field and each total is the sum of its amounts, and
there is none without amounts.
-/
structure Data.Sums (keys : KeySpace) (tries : List Try) (d : Data) : Prop where
  fields : ∀ key field, field ∈ d.hash key ↔ countedAt keys tries key field ≠ []
  count : ∀ key field, (d.count key field).val = (countedAt keys tries key field).sum
  totals : ∀ name, keys.total name ∈ d.strings ↔ acknowledgedAmounts tries name ≠ []
  total : ∀ name, (d.strings.getD (keys.total name) 0).val = (acknowledgedAmounts tries name).sum

namespace Data.Sums

variable {keys : KeySpace} {d after : Data} {tries : List Try} {t : Try}

theorem empty (keys : KeySpace) : Data.empty.Sums keys [] where
  fields := by simp [countedAt, hash, Data.empty]
  count := by simp [countedAt, Data.count, hash, Data.empty]
  totals := by simp [acknowledgedAmounts, Data.empty]
  total := by simp [acknowledgedAmounts, Data.empty]

theorem took (h : d.Sums keys tries) (ht : d.Took keys t after) :
    after.Sums keys (tries ++ [t]) where
  fields := by
    intro key field
    have hplace : ((t.places keys).filter (· = (key, field))).map (fun _ => t.amount.val) ≠ []
        ↔ (key, field) ∈ t.places keys := by
      simp [List.filter_eq_nil_iff]
    rw [ht.fields, h.fields, ← hplace]
    unfold countedAt
    rw [List.flatMap_append, List.flatMap_singleton, ne_eq, ne_eq, ne_eq, List.append_eq_nil_iff,
      Classical.not_and_iff_not_or_not]
  count := by
    intro key field
    rw [ht.count, h.count]
    simp [countedAt]
  totals := by
    intro n
    rw [ht.totals, h.totals]
    unfold acknowledgedAmounts
    rw [List.filter_append]
    by_cases hn : t.acknowledged ∧ t.name = n
    · simp [hn]
    · simp [hn]
  total := by
    intro n
    rw [ht.total, h.total]
    unfold acknowledgedAmounts
    rw [List.filter_append]
    by_cases hn : t.acknowledged ∧ t.name = n
    · simp [hn]
    · simp [hn]

end Data.Sums

namespace Bench

/--
The requests among some deeds, with their answers.
-/
def answered (keys : KeySpace) (policy? : Option Policy) :
    Bench → List Deed → List (Request × Except CounterError Answer)
  | _, [] => []
  | bench, .request r :: deeds =>
    let (result, bench) := bench.serve keys policy? r
    (r, result) :: answered keys policy? bench deeds
  | bench, .failNext verb failure times :: deeds =>
    answered keys policy? (bench.failNext verb failure times) deeds

def IsTry (entry : Request × Except CounterError Answer) (t : Try) : Prop :=
  entry.1 = .increment t.name t.amount t.instant ∧ t.acknowledged = entry.2.isOk
    ∧ t.reached ≤ 5 ∧ (t.acknowledged → t.reached = 5)

theorem sums_serve {keys : KeySpace} (policy? : Option Policy) {bench : Bench} {tries : List Try}
    (h : bench.data.Sums keys tries) (name : String) (amount : Count) (instant : Instant) :
    let r : Request := .increment name amount instant
    let out := bench.serve keys policy? r
    ∃ t, IsTry (r, out.1) t ∧ out.2.data.Sums keys (tries ++ [t]) := by
  intro r out
  have hsend := Observed.worksOn policy? worksOn_send
  have hreport : ∀ event o, ((Observed.runtime policy? send).report event o).state.data
      = o.state.data := by
    intro event o
    rw [Observed.state_report]
  obtain ⟨reached, hreached, hall, htook⟩ := Counters.run_increment_took hsend hreport keys name
    amount instant (.start bench)
  have hrun := Program.run_map (Observed.runtime policy? send)
    (Counters.increment keys name amount instant) Answer.count (.start bench)
  generalize (Counters.increment keys name amount instant).run (Observed.runtime policy? send)
    (.start bench) = run at hall htook hrun
  have hout : out = (run.1.map .count, run.2.state) :=
    congrArg (fun out : _ × Observed Bench => (out.1, out.2.state)) hrun
  rw [hout]
  refine ⟨⟨name, amount, instant, reached, run.1.isOk⟩, ⟨rfl, ?_, hreached, hall⟩, h.took htook⟩
  cases run.1 <;> rfl

/--
Whatever fails, each increment counts once at the levels it reached, which are all five if it
succeeds, and once in its total if it succeeds.
-/
theorem counted_up_to_reached (keys : KeySpace) (policy? : Option Policy) (deeds : List Deed)
    (h : ∀ r, .request r ∈ deeds → ∃ name amount instant, r = .increment name amount instant) :
    (∀ name instant, (keys.levels name instant).length = 5)
      ∧ ∃ tries, List.Forall₂ IsTry (empty.answered keys policy? deeds) tries
        ∧ (empty.served keys policy? deeds).data.Sums keys tries := by
  have hrest : ∀ bench : Bench, ∀ tries, bench.data.Sums keys tries →
      ∃ more, List.Forall₂ IsTry (bench.answered keys policy? deeds) more
        ∧ (bench.served keys policy? deeds).data.Sums keys (tries ++ more) := by
    induction deeds with
    | nil =>
      intro bench tries hsums
      exact ⟨[], .nil, by rwa [List.append_nil]⟩
    | cons deed deeds ih =>
      intro bench tries hsums
      have ih := ih fun r hr => h r (List.mem_cons_of_mem _ hr)
      cases deed with
      | request r =>
        obtain ⟨name, amount, instant, rfl⟩ := h r List.mem_cons_self
        obtain ⟨t, ht, hafter⟩ := sums_serve policy? hsums name amount instant
        obtain ⟨more, hmore, hsums⟩ := ih _ _ hafter
        refine ⟨t :: more, .cons ht hmore, ?_⟩
        rwa [List.append_assoc] at hsums
      | failNext verb failure times => exact ih (bench.failNext verb failure times) tries hsums
  exact ⟨keys.length_levels, hrest empty [] (.empty keys)⟩

/--
An increment whose first bucket could not be recorded, however often that was tried.
-/
theorem counted_halfIncrement :
    let noon : Instant := ⟨⟨2024, 2, 29, by decide, by decide, by decide⟩, 43200, 0, by decide,
      by decide, by decide⟩
    let r : Request := .increment "a" ⟨1, by decide, by decide⟩ noon
    let deeds : List Deed := [.failNext .sadd .timeout 3, .request r]
    (empty.answered .standard (some .standard) deeds) = [(r, .error (.store .timeout))]
      ∧ ∃ tries, List.Forall₂ IsTry (empty.answered .standard (some .standard) deeds) tries
        ∧ (empty.served .standard (some .standard) deeds).data.Sums .standard tries := by
  intro noon r deeds
  have hdeeds : ∀ r', .request r' ∈ deeds → ∃ name amount instant,
      r' = .increment name amount instant := by
    intro r' hr'
    simp only [deeds, List.mem_cons, reduceCtorEq, false_or, List.not_mem_nil, or_false] at hr'
    cases hr'
    exact ⟨_, _, _, rfl⟩
  exact ⟨by decide +kernel, (counted_up_to_reached .standard (some .standard) deeds hdeeds).2⟩

end Bench

end Rollup.Store
