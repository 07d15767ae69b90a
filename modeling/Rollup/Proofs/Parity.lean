import Rollup.Proofs.Ledger.History
import Rollup.Proofs.Store.History
import Rollup.Proofs.Store.Reading

/-!
This module contains the parity of counters in memory and counters in a store in which nothing
fails. The main statement is `answers_agree`: both give the same answers to the same requests, up to
the first increment that one of them has no room for, and then the other one has none either.
-/

namespace Rollup

open Rollup.Time Rollup.Text Rollup.Store

def Interval.ShortYears (i : Interval) : Prop :=
  i.start.ShortYear ∧ i.finish.ShortYear

/--
All years that a request counts in, or asks for, have at most four digits.
-/
def Request.ShortYears : Request → Prop
  | .increment _ _ instant => instant.ShortYear
  | .counts _ start finish _ => ∀ i, Interval.of start finish = .ok i → i.ShortYears
  | .countsEnding _ n finish r => ∀ i, Interval.ending r n finish = .ok i → i.ShortYears
  | _ => True

theorem Interval.shortYears_of {start finish : Instant} (hstart : start.ShortYear)
    (hfinish : finish.ShortYear) {i : Interval} (h : Interval.of start finish = .ok i) :
    i.ShortYears := by
  unfold Interval.of at h
  split at h
  · cases h
    exact ⟨hstart, hfinish⟩
  · cases h

/--
An increment was refused because there was no room for it.
-/
def refused : Except CounterError Answer → Bool
  | .error (.overflow _) => true
  | .error (.store failure) => failure = Data.overflow
  | _ => false

section

variable {keys : KeySpace} {l : Ledger} {d : Data} {j : Journal} {name : String}

theorem Interval.ShortYears.of_mem_startsOf {i : Interval} (h : i.ShortYears) {b : Bucket}
    {starts : List Instant} (hstarts : b.startsOf i = .ok starts) {s : Instant} (hs : s ∈ starts) :
    s.ShortYear := by
  obtain ⟨-, hlo, hhi⟩ := Bucket.floor_of_mem_startsOf hstarts hs
  exact ⟨Int.le_trans h.1.1 (Resolution.year_le_of_index_le hlo),
    Int.le_trans (Resolution.year_le_of_index_le hhi) h.2.2⟩

theorem total_eq (hl : l.Tells j) (hd : d.Tells keys j) :
    d.strings.getD (keys.total name) 0 = (l.tally name).total := by
  apply Count.ext
  rw [hd.total, (hl.tally name).total]

theorem getD_years_eq (hl : l.Tells j) (hd : d.Tells keys j) (y : Int) :
    (Counters.yearsOf (d.hash (keys.years name))).getD y 0 = (l.tally name).years.getD y 0 := by
  apply Count.ext
  rw [hd.years, (hl.tally name).years]

theorem map_val_injective {xs ys : List Count} (h : xs.map Count.val = ys.map Count.val) :
    xs = ys :=
  List.map_inj_right (fun _ _ => Count.ext) |>.1 h

theorem row_eq (hl : l.Tells j) (hd : d.Tells keys j) {b : Bucket} {start : Instant}
    (hstart : b.floor start = start) (hshort : start.ShortYear) :
    Counters.row b start (d.hash (b.key keys name start)) = (l.tally name).row ⟨b, start⟩ := by
  apply map_val_injective
  rw [hd.map_row hstart hshort, (hl.tally name).map_row hstart]

theorem count_eq (hl : l.Tells j) (hd : d.Tells keys j) {b : Bucket} {a : Instant}
    (ha : a.ShortYear) :
    d.count (keys.bucket name b.level a) (b.level.field a)
      = ((l.tally name).row ⟨b, b.floor a⟩).getD (b.slot a) 0 := by
  have hslot := b.slot_lt_slots_floor a
  apply Count.ext
  rw [hd.counts name b.level a ha, (hl.tally name).val_getD_row ⟨b, b.floor a⟩ hslot]
  apply sumWhere_congr
  intro e _
  rw [Bucket.suffix_eq_iff, b.field_eq a, Bucket.field_eq_iff]

theorem count_years_eq (hl : l.Tells j) (hd : d.Tells keys j) {a : Instant} (ha : a.ShortYear) :
    d.count (keys.bucket name .years a) (Level.years.field a)
      = (l.tally name).years.getD a.year 0 := by
  apply Count.ext
  rw [hd.counts name .years a ha, (hl.tally name).years]
  apply sumWhere_congr
  intro e _
  simp only [Level.suffix, Level.field, true_and]
  exact decimal_inj

theorem hasRoom_iff (hl : l.Tells j) (hd : d.Tells keys j) {amount : Count} {instant : Instant}
    (hshort : instant.ShortYear) :
    d.HasRoom keys name amount instant ↔ ((l.tally name).add? amount instant).isSome := by
  rw [Tally.isSome_add?_iff, Data.HasRoom, total_eq hl hd, ← count_years_eq hl hd hshort]
  constructor
  · rintro ⟨hlevels, htotal⟩
    have hroom : ∀ level : Level,
        ((d.count (keys.bucket name level instant) (level.field instant)).add? amount).isSome :=
      fun level => hlevels (keys.bucket name level instant, level.field instant)
        (List.mem_map.2 ⟨level, level.mem_all, rfl⟩)
    refine ⟨hroom .years, ?_, htotal⟩
    intro kind
    rw [← count_eq hl hd hshort]
    exact hroom kind.level
  · rintro ⟨hyears, hkinds, htotal⟩
    refine ⟨?_, htotal⟩
    intro entry hentry
    obtain ⟨level, -, rfl⟩ := List.mem_map.1 hentry
    rcases level.eq_years_or_eq_level with rfl | ⟨b, rfl⟩
    · exact hyears
    · have hkind := hkinds b
      rwa [← count_eq hl hd hshort] at hkind

theorem list_eq (hl : l.Tells j) (hd : d.Tells keys j) :
    (d.members keys.names).toList.mergeSort = l.list := by
  have hordered : (d.members keys.names).toList.Pairwise (· < ·) :=
    Std.ExtTreeSet.ordered_toList.imp compare_eq_lt_iff_lt.1
  have hsorted : (d.members keys.names).toList.mergeSort = (d.members keys.names).toList := by
    apply List.mergeSort_of_pairwise
    apply hordered.imp
    intro a b hab
    exact decide_eq_true (String.not_lt.1 (String.lt_asymm hab))
  -- both lists are in strict order and have the same names
  have hperm : (d.members keys.names).toList.Perm l.list := by
    apply (List.perm_ext_iff_of_nodup (hordered.imp String.ne_of_lt)
      ((Ledger.pairwise_list l).imp String.ne_of_lt)).2
    intro n
    rw [Std.ExtTreeSet.mem_toList, hd.names, hl.mem_list]
  rw [hsorted]
  apply List.Perm.eq_of_pairwise _ hordered (Ledger.pairwise_list l) hperm
  intro a b _ _ hab hba
  exact absurd hba (String.lt_asymm hab)

theorem source_counts_eq (hl : l.Tells j) (hd : d.Tells keys j) {i : Interval} (hi : i.ShortYears)
    (r : Resolution) :
    (Data.source keys d).counts name i r = l.source.counts name i r := by
  rw [Data.source, Ledger.source, Source.counts_oneByOne, Source.counts_oneByOne]
  cases r.bucket? with
  | none =>
    apply congrArg Except.ok
    unfold YearCounts.within
    apply List.map_congr_left
    intro k _
    exact getD_years_eq hl hd _
  | some b =>
    simp only
    cases hstarts : b.startsOf i with
    | error e => rfl
    | ok starts =>
      apply congrArg (b.cutRows i)
      apply List.map_congr_left
      intro s hs
      exact row_eq hl hd (Bucket.floor_of_mem_startsOf hstarts hs).1 (hi.of_mem_startsOf hstarts hs)

theorem counts_eq (hl : l.Tells j) (hd : d.Tells keys j) {i : Interval} (hi : i.ShortYears)
    (r : Resolution) :
    (Counters.counts keys name i r).run Data.send.bare d = (l.counts name i r, d) := by
  rw [Counters.run_counts_send]
  unfold Ledger.counts Source.resolve
  rw [source_counts_eq hl hd hi]

/--
A ledger and a store answer a request alike: both refuse it, or both give the same answer and the
store tells the same journal as the ledger.
-/
def Alike (keys : KeySpace) (j : Journal) (r : Request) (answer : Except CounterError Answer)
    (out : Except CounterError Answer × Data) : Prop :=
  (refused answer ∧ refused out.1) ∨ (out.1 = answer ∧ out.2.Tells keys (j.record r answer))

theorem Alike.of_eq {r : Request} {answer : Except CounterError Answer}
    {out : Except CounterError Answer × Data} (h : out = (answer, d))
    (hd : d.Tells keys (j.record r answer)) : Alike keys j r answer out := by
  rw [h]
  exact Or.inr ⟨rfl, hd⟩

theorem alike_increment (hl : l.Tells j) (hd : d.Tells keys j) {amount : Count} {instant : Instant}
    (hshort : instant.ShortYear) :
    Alike keys j (.increment name amount instant) (l.answer (.increment name amount instant)).1
      ((Counters.answer keys (.increment name amount instant)).run Data.send.bare d) := by
  have hbooked := hd.booked.answer (.increment name amount instant)
  unfold Counters.answer at hbooked ⊢
  rw [Program.run_map] at hbooked ⊢
  rw [Ledger.fst_answer_increment]
  by_cases hname : name = ""
  · subst hname
    exact .of_eq rfl hd
  · have hnodup : (keys.levels name instant).Nodup := KeySpace.nodup_levels hshort
    rw [Ledger.increment_of_ne hname]
    cases hadd : (l.tally name).add? amount instant with
    | none =>
      have hroom : ¬d.HasRoom keys name amount instant := by
        rw [hasRoom_iff hl hd hshort, hadd]
        simp
      rw [Counters.run_increment_of_not_hasRoom hname hnodup hroom]
      exact Or.inl ⟨rfl, by simp [refused, Except.map]⟩
    | some tally =>
      have hroom : d.HasRoom keys name amount instant := by
        rw [hasRoom_iff hl hd hshort, hadd]
        rfl
      obtain ⟨total, after, hrun, hincr⟩ := Counters.run_increment_of_hasRoom hname hnodup hroom
      obtain ⟨-, -, htotal, -⟩ := Tally.add?_eq_some hadd
      have hsum := hincr.sum
      rw [total_eq hl hd, htotal] at hsum
      cases hsum
      rw [hrun] at hbooked ⊢
      exact Or.inr ⟨rfl, hd.increment hshort hincr hbooked⟩

theorem alike_reset (hd : d.Tells keys j) :
    Alike keys j (.reset name) (l.answer (.reset name)).1
      ((Counters.answer keys (.reset name)).run Data.send.bare d) := by
  have hbooked := hd.booked.answer (.reset name)
  unfold Counters.answer at hbooked ⊢
  rw [Program.run_map] at hbooked ⊢
  rw [Ledger.fst_answer_reset]
  by_cases hname : name = ""
  · subst hname
    exact .of_eq rfl hd
  · rw [Ledger.reset_of_ne hname]
    rw [Counters.run_reset_send hname] at hbooked ⊢
    exact Or.inr ⟨rfl, hd.reset hbooked⟩

theorem run_series (hl : l.Tells j) (hd : d.Tells keys j) {i? : Except CounterError Interval}
    (hi : ∀ i, i? = .ok i → i.ShortYears) (r : Resolution) :
    (do
      let i ← liftExcept i?
      Answer.series <$> Counters.counts keys name i r : Program Answer).run Data.send.bare d
      = (do
        let i ← i?
        Answer.series <$> l.counts name i r, d) := by
  cases i? with
  | error e => rfl
  | ok i =>
    change (Answer.series <$> Counters.counts keys name i r).run Data.send.bare d
      = (Answer.series <$> l.counts name i r, d)
    rw [Program.run_map, counts_eq hl hd (hi i rfl)]
    rfl

theorem alike_answer (hl : l.Tells j) (hd : d.Tells keys j) {r : Request} (hr : r.ShortYears) :
    Alike keys j r (l.answer r).1 ((Counters.answer keys r).run Data.send.bare d) := by
  cases r with
  | increment name amount instant => exact alike_increment hl hd hr
  | reset name => exact alike_reset hd
  | list =>
    apply Alike.of_eq (d := d) _ hd
    change (Answer.names <$> Counters.list keys).run Data.send.bare d = _
    rw [Program.run_map, Counters.run_list_send, list_eq hl hd]
    rfl
  | total name =>
    apply Alike.of_eq (d := d) _ hd
    change (Answer.count <$> Counters.total keys name).run Data.send.bare d = _
    rw [Program.run_map, Counters.run_total_send, total_eq hl hd]
    rfl
  | counts name start finish r => exact .of_eq (run_series hl hd hr r) hd
  | countsEnding name n finish r => exact .of_eq (run_series hl hd hr r) hd

end

namespace Store.Bench

def answers (keys : KeySpace) (bench : Bench) : List Request → List (Except CounterError Answer)
  | [] => []
  | r :: requests => (bench.answer keys r).1 :: answers keys (bench.answer keys r).2 requests

end Store.Bench

theorem answers_agree_of_tells {keys : KeySpace} {l : Ledger} {bench : Bench} {j : Journal}
    (hl : l.Tells j) (hd : bench.data.Tells keys j) (hfailures : bench.failures = [])
    {requests : List Request} (hshort : ∀ r ∈ requests, r.ShortYears) :
    (l.answers requests).takeWhile (!refused ·)
        = (bench.answers keys requests).takeWhile (!refused ·)
      ∧ (l.answers requests).findIdx? refused = (bench.answers keys requests).findIdx? refused := by
  induction requests generalizing l bench j with
  | nil => exact ⟨rfl, rfl⟩
  | cons r requests ih =>
    obtain ⟨hresult, hdata, hnone⟩ :=
      Bench.run_of_failures_eq_nil (Counters.answer keys r) hfailures
    rw [← Bench.answer_eq] at hresult hdata hnone
    have halike := alike_answer hl hd (hshort r List.mem_cons_self)
    unfold Ledger.answers Bench.answers
    -- once both refuse, nothing more is claimed, so what the refusals have left does not matter
    rcases halike with ⟨hleft, hright⟩ | ⟨hsame, htells⟩
    · rw [← hresult] at hright
      simp [hleft, hright, List.findIdx?_cons]
    · rw [← hresult] at hsame
      rw [← hdata] at htells
      have hrest := ih (hl.answer r) htells hnone (fun r hr => hshort r (List.mem_cons_of_mem _ hr))
      rw [hsame]
      simp [List.takeWhile_cons, List.findIdx?_cons, hrest]

/--
Counters in memory and counters in a store give the same answers to the same requests for as long as
no increment is refused for want of room, and the first one that the memory refuses is the first one
that the store refuses.
-/
theorem answers_agree (keys : KeySpace) (requests : List Request)
    (hshort : ∀ r ∈ requests, r.ShortYears) :
    (Ledger.empty.answers requests).takeWhile (!refused ·)
        = (Bench.empty.answers keys requests).takeWhile (!refused ·)
      ∧ (Ledger.empty.answers requests).findIdx? refused
        = (Bench.empty.answers keys requests).findIdx? refused :=
  answers_agree_of_tells Ledger.tells_empty (Data.tells_empty keys) rfl hshort

/--
A leap second before a new year, a reset, and increments that leave no room for another one.
-/
theorem answers_agree_up_to_refusal :
    let leap : Instant := ⟨⟨2016, 12, 31, by decide, by decide, by decide⟩, 86399, 1500000000,
      by decide, by decide, by decide⟩
    let midnight : Instant := .midnight ⟨2017, 1, 1, by decide, by decide, by decide⟩
    let requests : List Request :=
      [.increment "a:b" ⟨-5, by decide, by decide⟩ leap, .reset "a:b",
        .increment "a:b" ⟨2 ^ 63 - 1, by decide, by decide⟩ leap,
        .counts "a:b" leap midnight .minute, .list,
        .increment "a:b" ⟨1, by decide, by decide⟩ midnight]
    (∀ r ∈ requests, r.ShortYears)
      ∧ (Bench.empty.answers .standard requests).findIdx? refused = some 5 := by
  intro leap midnight requests
  have hshort : ∀ r ∈ requests, r.ShortYears := by
    intro r hr
    have hleap : leap.ShortYear := by decide
    have hmidnight : midnight.ShortYear := by decide
    simp only [requests, List.mem_cons, List.not_mem_nil, or_false] at hr
    rcases hr with rfl | rfl | rfl | rfl | rfl | rfl
    · exact hleap
    · trivial
    · exact hleap
    · exact fun _ => Interval.shortYears_of hleap hmidnight
    · trivial
    · exact hmidnight
  refine ⟨hshort, ?_⟩
  rw [← (answers_agree .standard requests hshort).2]
  decide +kernel

end Rollup
