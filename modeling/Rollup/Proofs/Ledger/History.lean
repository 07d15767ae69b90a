import Rollup.Proofs.Ledger.Tally
import Rollup.Proofs.Series.Stitch

/-!
This module contains the meaning of a ledger: it tells the journal of the requests that it answered.
The main statement is `queries_tell_history`: totals, names and series are sums over the journal.
-/

namespace Rollup

open Rollup.Time

theorem compare_eq_lt_iff_lt {a b : String} : compare a b = .lt ↔ a < b :=
  compareOfLessAndEq_eq_lt

namespace Ledger

variable {l : Ledger} {j : Journal} {name : String}

/--
What a ledger has counted: it has a tally for each counter with entries, and for no other.
-/
structure Tells (l : Ledger) (j : Journal) : Prop where
  mem_iff : ∀ name, name ∈ l ↔ j name ≠ []
  tally : ∀ name, (l.tally name).Tells (j name)
  unnamed : j "" = []

theorem tells_empty : Tells .empty .empty where
  mem_iff := by
    intro name
    simp [empty, Journal.empty]
  tally := by
    intro name
    simpa [Ledger.tally, empty, Journal.empty] using Tally.tells_empty
  unnamed := rfl

theorem tally_insert (l : Ledger) (name : String) (t : Tally) (n : String) :
    Ledger.tally (Std.ExtTreeMap.insert l name t) n = if n = name then t else l.tally n := by
  simp only [tally, Std.ExtTreeMap.getD_eq_getD_getElem?, getElem?_insert_eq_ite]
  split <;> rfl

theorem tally_erase (l : Ledger) (name n : String) :
    Ledger.tally (Std.ExtTreeMap.erase l name) n = if n = name then .empty else l.tally n := by
  simp only [tally, Std.ExtTreeMap.getD_eq_getD_getElem?, getElem?_erase_eq_ite]
  split <;> rfl

theorem mem_insert_iff_eq_or (l : Ledger) (name : String) (t : Tally) (n : String) :
    n ∈ Std.ExtTreeMap.insert l name t ↔ n = name ∨ n ∈ l := by
  rw [Std.ExtTreeMap.mem_insert, Std.LawfulEqCmp.compare_eq_iff_eq, eq_comm]

theorem mem_erase_iff_ne_and (l : Ledger) (name n : String) :
    n ∈ Std.ExtTreeMap.erase l name ↔ n ≠ name ∧ n ∈ l := by
  rw [Std.ExtTreeMap.mem_erase, ne_eq, Std.LawfulEqCmp.compare_eq_iff_eq, ne_eq, @eq_comm _ n]

theorem pairwise_list (l : Ledger) : l.list.Pairwise (· < ·) :=
  Std.ExtTreeMap.ordered_keys.imp compare_eq_lt_iff_lt.1

theorem increment_of_ne (hname : name ≠ "") (l : Ledger) (amount : Count) (instant : Instant) :
    l.increment name amount instant
      = match (l.tally name).add? amount instant with
        | some t => .ok (t.total, Std.ExtTreeMap.insert l name t)
        | none => .error (.overflow name) := by
  unfold increment checkName
  rw [if_neg hname]
  rfl

theorem reset_of_ne (hname : name ≠ "") (l : Ledger) :
    l.reset name = .ok (Std.ExtTreeMap.erase l name) := by
  unfold reset checkName
  rw [if_neg hname]
  rfl

theorem fst_answer_increment (l : Ledger) (name : String) (amount : Count) (instant : Instant) :
    (l.answer (.increment name amount instant)).1
      = (l.increment name amount instant).map fun out => .count out.1 := by
  unfold Ledger.answer
  cases h : l.increment name amount instant <;> simp [h, Except.map]

theorem fst_answer_reset (l : Ledger) (name : String) :
    (l.answer (.reset name)).1 = (l.reset name).map fun _ => .done := by
  unfold Ledger.answer
  cases h : l.reset name <;> simp [h, Except.map]

theorem increment_eq_ok {amount total : Count} {instant : Instant} {l' : Ledger}
    (h : l.increment name amount instant = .ok (total, l')) :
    name ≠ "" ∧ ∃ t, (l.tally name).add? amount instant = some t ∧ total = t.total
      ∧ l' = Std.ExtTreeMap.insert l name t := by
  by_cases hname : name = ""
  · subst hname
    cases h
  · refine ⟨hname, ?_⟩
    rw [increment_of_ne hname] at h
    split at h
    · next t ht =>
      cases h
      exact ⟨t, ht, rfl, rfl⟩
    · cases h

theorem reset_eq_ok {l' : Ledger} (h : l.reset name = .ok l') :
    name ≠ "" ∧ l' = Std.ExtTreeMap.erase l name := by
  by_cases hname : name = ""
  · subst hname
    cases h
  · rw [reset_of_ne hname] at h
    cases h
    exact ⟨hname, rfl⟩

/--
All that a request can do to a tally: nothing, count one entry, or forget all of them.
-/
theorem tally_answer (l : Ledger) (r : Request) (n : String) :
    (l.answer r).2.tally n = l.tally n
      ∨ (∃ amount instant t, (l.tally n).add? amount instant = some t
        ∧ (l.answer r).2.tally n = t)
      ∨ (l.answer r).2.tally n = .empty := by
  cases r with
  | increment name amount instant =>
    cases hincr : l.increment name amount instant with
    | ok result =>
      obtain ⟨-, t, hadd, -, hl'⟩ := increment_eq_ok hincr
      simp only [Ledger.answer, hincr, hl', tally_insert]
      split
      · next hn =>
        right
        left
        exact ⟨amount, instant, t, hn ▸ hadd, rfl⟩
      · exact .inl rfl
    | error e =>
      left
      simp only [Ledger.answer, hincr]
  | reset name =>
    cases hreset : l.reset name with
    | ok l' =>
      obtain ⟨-, hl'⟩ := reset_eq_ok hreset
      simp only [Ledger.answer, hreset, hl', tally_erase]
      split
      · exact .inr (.inr rfl)
      · exact .inl rfl
    | error e =>
      left
      simp only [Ledger.answer, hreset]
  | list => exact .inl rfl
  | total name => exact .inl rfl
  | counts name start finish r => exact .inl rfl
  | countsEnding name n' finish r => exact .inl rfl

/--
What holds of a tally that has counted nothing, and what increments keep, holds of each tally.
-/
theorem tally_after {P : Tally → Prop} (hempty : P .empty)
    (hadd : ∀ (t t' : Tally) (amount : Count) (instant : Instant), P t →
      t.add? amount instant = some t' → P t')
    (requests : List Request) (name : String) : P ((empty.after requests).tally name) := by
  suffices h : ∀ l : Ledger, (∀ n, P (l.tally n)) → ∀ n, P ((l.after requests).tally n) by
    apply h
    intro n
    rw [Ledger.tally, empty, Std.ExtTreeMap.getD_empty]
    exact hempty
  induction requests with
  | nil => exact fun l hl => hl
  | cons r requests ih =>
    intro l hl
    apply ih
    intro n
    rcases l.tally_answer r n with hsame | ⟨amount, instant, t, hafter, hsame⟩ | hsame
    · rw [hsame]
      exact hl n
    · rw [hsame]
      exact hadd _ _ _ _ (hl n) hafter
    · rw [hsame]
      exact hempty

namespace Tells

theorem increment {amount total : Count} {instant : Instant} {l' : Ledger} (h : l.Tells j)
    (hincr : l.increment name amount instant = .ok (total, l')) :
    l'.Tells fun n => if n = name then j n ++ [⟨amount, instant⟩] else j n := by
  obtain ⟨hname, t, hadd, -, rfl⟩ := increment_eq_ok hincr
  constructor
  · intro n
    rw [mem_insert_iff_eq_or, h.mem_iff]
    by_cases hn : n = name
    · simp [hn]
    · simp [hn]
  · intro n
    rw [tally_insert]
    by_cases hn : n = name
    · rw [if_pos hn, if_pos hn, hn]
      exact (h.tally name).add hadd
    · rw [if_neg hn, if_neg hn]
      exact h.tally n
  · rw [if_neg (Ne.symm hname), h.unnamed]

theorem reset {l' : Ledger} (h : l.Tells j) (hreset : l.reset name = .ok l') :
    l'.Tells fun n => if n = name then [] else j n := by
  obtain ⟨-, rfl⟩ := reset_eq_ok hreset
  constructor
  · intro n
    rw [mem_erase_iff_ne_and, h.mem_iff]
    by_cases hn : n = name
    · simp [hn]
    · simp [hn]
  · intro n
    rw [tally_erase]
    by_cases hn : n = name
    · rw [if_pos hn, if_pos hn]
      exact Tally.tells_empty
    · rw [if_neg hn, if_neg hn]
      exact h.tally n
  · rw [h.unnamed]
    split <;> rfl

theorem answer (h : l.Tells j) (r : Request) :
    (l.answer r).2.Tells (j.record r (l.answer r).1) := by
  cases r with
  | increment name amount instant =>
    cases hincr : l.increment name amount instant with
    | ok result =>
      simp only [Ledger.answer, hincr]
      exact h.increment hincr
    | error e =>
      simp only [Ledger.answer, hincr]
      exact h
  | reset name =>
    cases hreset : l.reset name with
    | ok l' =>
      simp only [Ledger.answer, hreset]
      exact h.reset hreset
    | error e =>
      simp only [Ledger.answer, hreset]
      exact h
  | list => exact h
  | total name => exact h
  | counts name start finish r => exact h
  | countsEnding name n finish r => exact h

-- The journal that a ledger tells grows with each answer, so the induction is for any journal.
theorem run (h : l.Tells j) (requests : List Request) :
    (l.after requests).Tells
      ((requests.zip (l.answers requests)).foldl (fun j (r, answer) => j.record r answer) j) := by
  induction requests generalizing l j with
  | nil => exact h
  | cons r requests ih => exact ih (h.answer r)

theorem after (requests : List Request) :
    (Ledger.empty.after requests).Tells (.ofAnswers requests (Ledger.empty.answers requests)) :=
  tells_empty.run requests

theorem total (h : l.Tells j) (hname : name ≠ "") :
    ∃ total, l.total name = .ok total ∧ total.val = sumWhere (fun _ => True) (j name) := by
  refine ⟨(l.tally name).total, ?_, (h.tally name).total⟩
  unfold Ledger.total checkName
  rw [if_neg hname]
  rfl

theorem mem_list (h : l.Tells j) : name ∈ l.list ↔ j name ≠ [] := by
  rw [Ledger.list, Std.ExtTreeMap.mem_keys]
  exact h.mem_iff name

theorem source_counts (h : l.Tells j) (name : String) (interval : Interval) (r : Resolution) :
    (∃ origin, l.source.counts name interval r = .error (.outOfRange origin))
      ∨ ∃ counts, l.source.counts name interval r = .ok counts
        ∧ counts.map Count.val
          = (List.range (r.unitsSpanned interval.start interval.finish).toNat).map fun k =>
            sumWhere (fun a => r.index a = r.index interval.start + (k : Nat)) (j name) := by
  rw [source, Source.counts_oneByOne]
  cases hb : r.bucket? with
  | none =>
    obtain rfl := Resolution.eq_year_of_bucket? hb
    right
    refine ⟨_, rfl, ?_⟩
    rw [YearCounts.map_within]
    apply List.map_congr_left
    intro k _
    exact (h.tally name).years _
  | some b =>
    obtain rfl := Resolution.unit_of_bucket? hb
    simp only
    cases hstarts : b.startsOf interval with
    | error e =>
      left
      obtain ⟨origin, rfl⟩ := Bucket.startsFrom_eq_error hstarts
      exact ⟨origin, rfl⟩
    | ok starts =>
      right
      exact Bucket.map_cutRows (fun s => (l.tally name).row ⟨b, s⟩)
        (fun k => sumWhere (fun a => b.unit.index a = k) (j name)) hstarts
        (fun s hs => (h.tally name).map_row (Bucket.floor_of_mem_startsOf hstarts hs).1)

theorem counts (h : l.Tells j) (hname : name ≠ "") (interval : Interval) (r : Resolution) :
    (∃ origin, l.counts name interval r = .error (.outOfRange origin))
      ∨ ∃ s, l.counts name interval r = .ok s
        ∧ (s.name = name ∧ s.interval = interval ∧ s.resolution = r)
        ∧ s.counts.length = (r.unitsSpanned interval.start interval.finish).toNat
        ∧ s.counts.map Count.val
          = s.instants.map fun start => sumWhere (fun a => r.floor a = start) (j name) := by
  have hcounts : l.counts name interval r = l.source.resolve name interval r := by
    unfold Ledger.counts checkName
    rw [if_neg hname]
    rfl
  rw [hcounts]
  unfold Source.resolve
  rcases h.source_counts name interval r with ⟨origin, herror⟩ | ⟨counts, hok, hmap⟩
  · left
    rw [herror]
    exact ⟨origin, rfl⟩
  · right
    rw [hok]
    have hlen := congrArg List.length hmap
    rw [List.length_map, List.length_map, List.length_range] at hlen
    obtain ⟨hinstants, hunits⟩ := Series.getElem_instants (s := ⟨name, interval, r, counts⟩) hlen
    refine ⟨⟨name, interval, r, counts⟩, rfl, ⟨rfl, rfl, rfl⟩, hlen, ?_⟩
    -- the counts are sums by the numbers of units, and each instant starts the unit of its number
    simp only [hmap]
    apply List.ext_getElem
    · rw [List.length_map, List.length_map, List.length_range, hinstants, hlen]
    · intro k _ hk
      rw [List.length_map] at hk
      obtain ⟨hfloor, hindex⟩ := hunits k hk
      rw [List.getElem_map, List.getElem_map, List.getElem_range]
      apply sumWhere_congr
      intro e _
      rw [← hfloor, Resolution.floor_eq_iff, hindex]

end Tells

/--
Queries tell the history. After any requests, the total of a counter is the sum of the amounts that
it accepted since its last reset, the names are those of the counters that accepted any, and each
count of a series is the sum of the amounts in the unit that begins at its instant.
-/
theorem queries_tell_history (requests : List Request) (name : String) (hname : name ≠ "") :
    let l := empty.after requests
    let j := Journal.ofAnswers requests (empty.answers requests)
    (∃ total, l.total name = .ok total ∧ total.val = sumWhere (fun _ => True) (j name))
      ∧ (l.list.Pairwise (· < ·) ∧ ∀ n, n ∈ l.list ↔ j n ≠ [])
      ∧ ∀ (interval : Interval) (r : Resolution),
        (∃ origin, l.counts name interval r = .error (.outOfRange origin))
          ∨ ∃ s, l.counts name interval r = .ok s
            ∧ (s.name = name ∧ s.interval = interval ∧ s.resolution = r)
            ∧ s.counts.length = (r.unitsSpanned interval.start interval.finish).toNat
            ∧ s.counts.map Count.val
              = s.instants.map fun start => sumWhere (fun a => r.floor a = start) (j name) := by
  intro l j
  have h : l.Tells j := Tells.after requests
  refine ⟨h.total hname, ⟨pairwise_list l, ?_⟩, h.counts hname⟩
  intro n
  exact h.mem_list

/--
An increment without room is no part of the history, and neither is what was counted before a reset.
-/
theorem total_after_refused_and_reset :
    let noon : Instant := ⟨⟨2024, 2, 29, by decide, by decide, by decide⟩, 43200, 0, by decide,
      by decide, by decide⟩
    let requests : List Request :=
      [.increment "a" ⟨3, by decide, by decide⟩ noon, .reset "a",
        .increment "a" ⟨2 ^ 63 - 1, by decide, by decide⟩ noon,
        .increment "a" ⟨1, by decide, by decide⟩ noon]
    "a" ≠ "" ∧ ∃ total, (empty.after requests).total "a" = .ok total ∧ total.val = 2 ^ 63 - 1 := by
  intro noon requests
  refine ⟨by decide, ?_⟩
  obtain ⟨⟨total, hok, hval⟩, -, -⟩ := queries_tell_history requests "a" (by decide)
  refine ⟨total, hok, ?_⟩
  rw [hval]
  decide +kernel

end Ledger

end Rollup
