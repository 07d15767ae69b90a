import Rollup.Proofs.Journal
import Rollup.Proofs.Series.Last
import Rollup.Request

/-!
This module contains the answers to queries for the last units, by ledgers and by programs on a
store. The main statement is `answers_with_last_units`: such a query is never refused for its
interval, and its series ends with the unit that contains the given instant.
-/

namespace Rollup

open Rollup.Time

namespace Store.Program

variable {σ α β : Type} {P : Except CounterError α → Prop} {Q : Except CounterError β → Prop}

/--
However the store replies, a program ends with a result of this kind.
-/
def Ends (P : Except CounterError α → Prop) : Program α → Prop
  | done result => P result
  | call _ next => ∀ reply, (next reply).Ends P
  | readAll _ next => ∀ fetched, (next fetched).Ends P
  | report _ next => next.Ends P

theorem Ends.run {p : Program α} (h : p.Ends P) (rt : Runtime σ) (s : σ) : P (p.run rt s).1 := by
  induction p generalizing s with
  | done result => exact h
  | call c rest ih => exact ih _ (h _) _
  | readAll keys rest ih => exact ih _ (h _) _
  | report event rest ih => exact ih h _

theorem Ends.bind {p : Program α} {next : α → Program β} (h : p.Ends P)
    (hok : ∀ a, P (.ok a) → (next a).Ends Q) (herror : ∀ e, P (.error e) → Q (.error e)) :
    (p.bind next).Ends Q := by
  induction p with
  | done result =>
    cases result with
    | ok a => exact hok a h
    | error e => exact herror e h
  | call c rest ih => exact fun reply => ih reply (h reply)
  | readAll keys rest ih => exact fun fetched => ih fetched (h fetched)
  | report event rest ih => exact ih h

theorem ends_lift {result : Except CounterError α} (h : P result) :
    (liftExcept result : Program α).Ends P := by
  cases result with
  | ok a => exact h
  | error e => exact h

end Store.Program

/--
The errors that blame the interval of a query or its number of units.
-/
def CounterError.BlamesInterval : CounterError → Prop
  | .invalidCount _ | .invalidInterval _ _ => True
  | _ => False

/--
What reading the counts of an interval comes to: one count for each unit, or another error.
-/
def CountsOrFails (interval : Interval) (r : Resolution) : Except CounterError (List Count) → Prop
  | .ok counts => counts.length = (r.unitsSpanned interval.start interval.finish).toNat
  | .error e => ¬e.BlamesInterval

/--
What a query for the last units comes to, if it gets so many of them.
-/
structure EndsOrFails (name : String) (units : Nat) (finish : Instant) (r : Resolution)
    (result : Except CounterError Answer) : Prop where
  ok : ∀ answer, result = .ok answer → ∃ s, answer = .series s
    ∧ (s.name = name ∧ s.resolution = r) ∧ s.EndsWith units finish
  error : ∀ e, result = .error e → ¬e.BlamesInterval

section

variable {name : String} {interval : Interval} {r : Resolution} {e : CounterError}

theorem not_blamesInterval_of_checkName (h : checkName name = .error e) : ¬e.BlamesInterval := by
  unfold checkName at h
  split at h
  · cases h
    exact id
  · cases h

theorem YearCounts.countsOrFails_within (years : YearCounts) (interval : Interval) :
    CountsOrFails interval .year (.ok (years.within interval)) := by
  rw [CountsOrFails, within, List.length_map, List.length_range]
  rfl

theorem Bucket.not_blamesInterval_of_startsOf {b : Bucket} (h : b.startsOf interval = .error e) :
    ¬e.BlamesInterval := by
  obtain ⟨origin, rfl⟩ := startsFrom_eq_error h
  exact id

theorem Bucket.countsOrFails_cutRows (b : Bucket) (interval : Interval) (rows : List (List Count)) :
    CountsOrFails interval b.unit (b.cutRows interval rows) := by
  cases h : b.cutRows interval rows with
  | ok counts =>
    rw [CountsOrFails, cutRows_eq_ok h, Row.length_cut]
  | error e =>
    unfold cutRows at h
    split at h
    · cases h
    · cases h
      exact id

theorem endsOrFails_series {n : Nat} {finish : Instant} {counts : List Count}
    (hfinish : interval.finish = finish)
    (hunits : (r.unitsEnding n finish : Int) = r.unitsSpanned interval.start finish)
    (hcounts : CountsOrFails interval r (.ok counts)) :
    EndsOrFails name (r.unitsEnding n finish) finish r
      (.ok (.series ⟨name, interval, r, counts⟩)) := by
  have hcovers : Series.Covers ⟨name, interval, r, counts⟩ := Series.covers_of_length hcounts
  constructor
  · rintro _ ⟨⟩
    exact ⟨_, rfl, ⟨rfl, rfl⟩, hcovers.endsWith hfinish hunits⟩
  · rintro _ ⟨⟩

theorem endsOrFails_error {units : Nat} {finish : Instant} (h : ¬e.BlamesInterval) :
    EndsOrFails name units finish r (.error e) := by
  constructor
  · rintro _ ⟨⟩
  · rintro _ ⟨⟩
    exact h

end

namespace Ledger

theorem countsOrFails_source (l : Ledger) (name : String) (interval : Interval) (r : Resolution) :
    CountsOrFails interval r (l.source.counts name interval r) := by
  rw [source, Source.counts_oneByOne]
  cases hb : r.bucket? with
  | none =>
    obtain rfl := Resolution.eq_year_of_bucket? hb
    exact YearCounts.countsOrFails_within _ interval
  | some b =>
    obtain rfl := Resolution.unit_of_bucket? hb
    simp only
    cases hstarts : b.startsOf interval with
    | ok starts => exact b.countsOrFails_cutRows interval _
    | error e => exact Bucket.not_blamesInterval_of_startsOf hstarts

theorem fst_answer_countsEnding (l : Ledger) (name : String) (n : Nat) (finish : Instant)
    (r : Resolution) :
    (l.answer (.countsEnding name n finish r)).1
      = (Interval.ending r n finish).bind fun interval =>
        ((checkName name).bind fun _ =>
          (l.source.counts name interval r).map fun counts => ⟨name, interval, r, counts⟩).map
            .series := rfl

theorem endsOrFails_answer (l : Ledger) (name : String) {n : Nat} (hn : 0 < n) (finish : Instant)
    (r : Resolution) :
    EndsOrFails name (r.unitsEnding n finish) finish r
      (l.answer (.countsEnding name n finish r)).1 := by
  rw [fst_answer_countsEnding]
  rcases Interval.ending_cases r hn finish with
    ⟨origin, herror⟩ | ⟨interval, hok, hfinish, hunits⟩
  · rw [herror]
    exact endsOrFails_error id
  · rw [hok]
    have hcounts := l.countsOrFails_source name interval r
    cases hname : checkName name with
    | error e => exact endsOrFails_error (not_blamesInterval_of_checkName hname)
    | ok _ =>
      cases hread : l.source.counts name interval r with
      | ok counts =>
        rw [hread] at hcounts
        simp only [Except.bind, hread]
        exact endsOrFails_series hfinish hunits hcounts
      | error e =>
        rw [hread] at hcounts
        simp only [Except.bind, hread]
        exact endsOrFails_error hcounts

end Ledger

namespace Store.Counters

open Program

variable {keys : KeySpace}

theorem ends_yearCounts (name : String) :
    (yearCounts keys name).Ends fun result => ∀ e, result = .error e → ¬e.BlamesInterval := by
  intro reply
  cases reply with
  | ok hash =>
    intro e he
    cases he
  | error failure =>
    intro e he
    cases he
    exact id

theorem ends_rows (name : String) (b : Bucket) (starts : List Instant) :
    (rows keys name b starts).Ends fun result => ∀ e, result = .error e → ¬e.BlamesInterval := by
  intro fetched
  cases fetched with
  | all hashes =>
    intro e he
    cases he
  | broken failure arrived =>
    intro e he
    cases he
    exact id

theorem ends_source (name : String) (interval : Interval) (r : Resolution) :
    ((source keys).counts name interval r).Ends (CountsOrFails interval r) := by
  unfold Source.counts
  cases hb : r.bucket? with
  | none =>
    obtain rfl := Resolution.eq_year_of_bucket? hb
    apply (ends_yearCounts name).bind
    · exact fun years _ => years.countsOrFails_within interval
    · exact fun e he => he e rfl
  | some b =>
    obtain rfl := Resolution.unit_of_bucket? hb
    simp only
    cases hstarts : b.startsOf interval with
    | error e => exact Bucket.not_blamesInterval_of_startsOf hstarts
    | ok starts =>
      apply (ends_rows name b starts).bind
      · exact fun rows _ => ends_lift (b.countsOrFails_cutRows interval rows)
      · exact fun e he => he e rfl

theorem ends_answer (name : String) {n : Nat} (hn : 0 < n) (finish : Instant) (r : Resolution) :
    (answer keys (.countsEnding name n finish r)).Ends
      (EndsOrFails name (r.unitsEnding n finish) finish r) := by
  change ((liftExcept (Interval.ending r n finish) : Program Interval).bind fun interval =>
    (counts keys name interval r).bind fun s => done (.ok (Answer.series s))).Ends _
  rcases Interval.ending_cases r hn finish with
    ⟨origin, herror⟩ | ⟨interval, hok, hfinish, hunits⟩
  · rw [herror]
    exact endsOrFails_error id
  · rw [hok]
    unfold counts
    cases hname : checkName name with
    | error e => exact endsOrFails_error (not_blamesInterval_of_checkName hname)
    | ok _ =>
      change (((source keys).counts name interval r).bind fun counts =>
        done (.ok (Series.mk name interval r counts))).bind _ |>.Ends _
      rw [bind_assoc]
      apply (ends_source name interval r).bind
      · exact fun counts hcounts => endsOrFails_series hfinish hunits hcounts
      · exact fun e he => endsOrFails_error he

end Store.Counters

/--
A query for the last units, to a ledger or to a store that replies in any way, never fails for its
interval. Its series ends with the unit of the given instant and has the `n` units that were asked
for, one after the other; it has one less where that instant is a leap second that ends its unit.
-/
theorem answers_with_last_units (name : String) {n : Nat} (hn : 0 < n) (finish : Instant)
    (r : Resolution) :
    let units := if 1 < n ∧ r.EndsInLeap finish then n - 1 else n
    (∀ l : Ledger,
        EndsOrFails name units finish r (l.answer (.countsEnding name n finish r)).1)
      ∧ ∀ (keys : KeySpace) (σ : Type) (rt : Store.Runtime σ) (s : σ),
        EndsOrFails name units finish r
          ((Store.Counters.answer keys (.countsEnding name n finish r)).run rt s).1 := by
  intro units
  constructor
  · intro l
    exact l.endsOrFails_answer name hn finish r
  · intro keys σ rt s
    exact (Store.Counters.ends_answer name hn finish r).run rt s

/--
The last two minutes up to a leap second, of which only the last one is told.
-/
theorem endsWith_leapSecond :
    let eve : Date := ⟨2016, 12, 31, by decide, by decide, by decide⟩
    let before : Instant := ⟨eve, 86310, 0, by decide, by decide, by decide⟩
    let within : Instant := ⟨eve, 86370, 0, by decide, by decide, by decide⟩
    let leap : Instant := ⟨eve, 86399, 1000000000, by decide, by decide, by decide⟩
    let start : Instant := ⟨eve, 86340, 0, by decide, by decide, by decide⟩
    let l := Ledger.empty.after [.increment "a" ⟨5, by decide, by decide⟩ before,
      .increment "a" ⟨7, by decide, by decide⟩ within]
    let s : Series := ⟨"a", ⟨start, leap, by decide⟩, .minute, [⟨7, by decide, by decide⟩]⟩
    0 < 2 ∧ (l.answer (.countsEnding "a" 2 leap .minute)).1 = .ok (.series s)
      ∧ s.EndsWith 1 leap := by
  intro eve before within leap start l s
  have htwo : 0 < 2 := by decide
  have hanswer : (l.answer (.countsEnding "a" 2 leap .minute)).1 = .ok (.series s) := by
    decide +kernel
  have hends := (answers_with_last_units "a" htwo leap .minute).1 l
  obtain ⟨_, heq, -, hs⟩ := hends.ok _ hanswer
  cases heq
  exact ⟨htwo, hanswer, hs⟩

/--
The last `n` units are not always `n` units.
-/
theorem not_length_eq_of_countsEnding :
    ¬∀ (l : Ledger) (name : String) (n : Nat) (finish : Instant) (r : Resolution) (s : Series),
      name ≠ "" → 0 < n → (l.answer (.countsEnding name n finish r)).1 = .ok (.series s) →
        s.counts.length = n := by
  intro h
  let eve : Date := ⟨2016, 12, 31, by decide, by decide, by decide⟩
  let before : Instant := ⟨eve, 86310, 0, by decide, by decide, by decide⟩
  let within : Instant := ⟨eve, 86370, 0, by decide, by decide, by decide⟩
  let leap : Instant := ⟨eve, 86399, 1000000000, by decide, by decide, by decide⟩
  let start : Instant := ⟨eve, 86340, 0, by decide, by decide, by decide⟩
  let l := Ledger.empty.after [.increment "a" ⟨5, by decide, by decide⟩ before,
    .increment "a" ⟨7, by decide, by decide⟩ within]
  let s : Series := ⟨"a", ⟨start, leap, by decide⟩, .minute, [⟨7, by decide, by decide⟩]⟩
  have hs : (l.answer (.countsEnding "a" 2 leap .minute)).1 = .ok (.series s) := by decide +kernel
  exact absurd (h l "a" 2 leap .minute s (by decide) (by decide) hs) (by decide)

end Rollup
