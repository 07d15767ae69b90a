import Rollup.Proofs.Ledger.History

/-!
This module contains the totals of series. The main statement is `total?_tells_history`: the
counts of a series are added up in the order of its instants, which is not the order in which the
amounts were accepted, so there is a total exactly if the sums on this other way are in range.
-/

namespace Rollup

open Rollup.Time

namespace Count

theorem isSome_ofInt?_iff {n : Int} :
    (ofInt? n).isSome ↔ -2 ^ (63 : Nat) ≤ n ∧ n ≤ 2 ^ (63 : Nat) - 1 := by
  rw [← not_iff_not, Bool.not_eq_true, Option.isSome_eq_false_iff, Option.isNone_iff_eq_none,
    ofInt?_eq_none_iff]
  omega

-- The sum so far takes part in each sum on the way, so the induction is for any sum so far.
theorem foldlM_add?_eq_some_iff {counts : List Count} {sum c : Count} :
    counts.foldlM add? sum = some c
      ↔ (∀ k, (ofInt? (sum.val + ((counts.take k).map val).sum)).isSome)
        ∧ c.val = sum.val + (counts.map val).sum := by
  induction counts generalizing sum with
  | nil =>
    simp only [List.foldlM_nil, List.take_nil, List.map_nil, List.sum_nil, Int.add_zero, ofInt?_val,
      Option.isSome_some, forall_const, true_and]
    exact ⟨fun h => by cases h; rfl, fun h => congrArg some (ext h.symm)⟩
  | cons count counts ih =>
    rw [List.foldlM_cons]
    cases hadd : sum.add? count with
    | none =>
      -- the first sum on the way is already out of range
      have hfirst : ofInt? (sum.val + count.val) = none := hadd
      simp only [Option.bind_eq_bind, Option.bind_none, reduceCtorEq, false_iff, not_and]
      intro h
      have := h 1
      simp [hfirst] at this
    | some next =>
      rw [Option.bind_eq_bind, Option.bind_some, ih, val_add? hadd, List.map_cons, List.sum_cons,
        Int.add_assoc]
      apply and_congr_left
      intro _
      constructor
      · intro h k
        cases k with
        | zero => simp [ofInt?_val]
        | succ k =>
          rw [List.take_succ_cons, List.map_cons, List.sum_cons, ← Int.add_assoc]
          exact h k
      · intro h k
        have := h (k + 1)
        rwa [List.take_succ_cons, List.map_cons, List.sum_cons, ← Int.add_assoc] at this

theorem sum?_eq_some_iff {counts : List Count} {c : Count} :
    sum? counts = some c
      ↔ (∀ k, (ofInt? ((counts.take k).map val).sum).isSome) ∧ c.val = (counts.map val).sum := by
  unfold sum?
  simp [foldlM_add?_eq_some_iff]

end Count

namespace Series

theorem nodup_instants {s : Series}
    (h : s.counts.length = (s.resolution.unitsSpanned s.interval.start s.interval.finish).toNat) :
    s.instants.Nodup := by
  rw [List.Nodup, List.pairwise_iff_getElem]
  intro i k hi hk hik heq
  have hunits := (getElem_instants h).2
  have hindex := (hunits i hi).2
  rw [heq, (hunits k hk).2] at hindex
  omega

end Series

namespace Ledger

variable {l : Ledger} {j : Journal} {name : String}

theorem counts_eq_ok {interval : Interval} {r : Resolution} {s : Series}
    (h : l.counts name interval r = .ok s) : name ≠ "" := by
  rintro rfl
  cases h

namespace Tells

theorem sum_take_counts (h : l.Tells j) {interval : Interval} {r : Resolution} {s : Series}
    (hs : l.counts name interval r = .ok s) (k : Nat) :
    ((s.counts.take k).map Count.val).sum
      = sumWhere (fun a => r.floor a ∈ s.instants.take k) (j name) := by
  rcases h.counts (counts_eq_ok hs) interval r with ⟨origin, herror⟩ | ⟨s', hok, hself, hlen, hmap⟩
  · rw [herror] at hs
    cases hs
  · rw [hok] at hs
    cases hs
    obtain ⟨rfl, rfl, rfl⟩ := hself
    have hnodup : (s.instants.take k).Nodup :=
      (Series.nodup_instants hlen).sublist (List.take_sublist k _)
    rw [← sum_map_sumWhere hnodup, List.map_take, List.map_take, hmap]

/--
The writer's check of the total is enough where the amounts are of one sign.
-/
theorem isSome_ofInt?_sumWhere (h : l.Tells j) (hname : name ≠ "")
    (hsign : (∀ e ∈ j name, 0 ≤ e.amount.val) ∨ ∀ e ∈ j name, e.amount.val ≤ 0)
    (p : Instant → Prop) [DecidablePred p] : (Count.ofInt? (sumWhere p (j name))).isSome := by
  obtain ⟨total, -, htotal⟩ := h.total hname
  have hmin := total.min_le
  have hmax := total.le_max
  rw [Count.isSome_ofInt?_iff]
  rcases hsign with hsign | hsign
  · have hsign : ∀ e ∈ j name, 0 ≤ 1 * e.amount.val := by simpa using hsign
    have hlo := mul_sumWhere_le (p := fun _ => False) (q := p) hsign (by simp)
    have hhi := mul_sumWhere_le (p := p) (q := fun _ => True) hsign (by simp)
    rw [sumWhere_false] at hlo
    omega
  · have hsign : ∀ e ∈ j name, 0 ≤ -1 * e.amount.val := by simpa using hsign
    have hlo := mul_sumWhere_le (p := fun _ => False) (q := p) hsign (by simp)
    have hhi := mul_sumWhere_le (p := p) (q := fun _ => True) hsign (by simp)
    rw [sumWhere_false] at hlo
    omega

end Tells

/--
The counts of a series are sums over the history, and so is each sum on the way to its total. There
is a total exactly if all these sums are in range; then it is the sum of the amounts in all units of
the series. Amounts of one sign always have one.
-/
theorem total?_tells_history (requests : List Request) (name : String) (interval : Interval)
    (r : Resolution) {s : Series} (h : (empty.after requests).counts name interval r = .ok s) :
    let entries := Journal.ofAnswers requests (empty.answers requests) name
    (∀ k, ((s.counts.take k).map Count.val).sum
        = sumWhere (fun a => r.floor a ∈ s.instants.take k) entries)
      ∧ (∀ total, s.total? = some total
        ↔ (∀ k, (Count.ofInt? (sumWhere (fun a => r.floor a ∈ s.instants.take k) entries)).isSome)
          ∧ total.val = sumWhere (fun a => r.floor a ∈ s.instants) entries)
      ∧ ((∀ e ∈ entries, 0 ≤ e.amount.val) ∨ (∀ e ∈ entries, e.amount.val ≤ 0) →
        s.total?.isSome) := by
  intro entries
  have htells := Tells.after requests
  have hsums := htells.sum_take_counts h
  have hsum : (s.counts.map Count.val).sum
      = sumWhere (fun a => r.floor a ∈ s.instants) entries := by
    have := hsums (s.counts.length + s.instants.length)
    rwa [List.take_of_length_le (by omega), List.take_of_length_le (by omega)] at this
  have htotal : ∀ total, s.total? = some total
      ↔ (∀ k, (Count.ofInt? (sumWhere (fun a => r.floor a ∈ s.instants.take k) entries)).isSome)
        ∧ total.val = sumWhere (fun a => r.floor a ∈ s.instants) entries := by
    intro total
    rw [Series.total?, Count.sum?_eq_some_iff, hsum]
    simp only [hsums]
    rfl
  refine ⟨hsums, htotal, ?_⟩
  intro hsign
  have hrange := htells.isSome_ofInt?_sumWhere (counts_eq_ok h) hsign
  obtain ⟨total, hsome⟩ := Option.isSome_iff_exists.1 (hrange fun a => r.floor a ∈ s.instants)
  exact Option.isSome_of_eq_some
    ((htotal total).2 ⟨fun k => hrange _, Count.val_ofInt? hsome⟩)

/--
Amounts of one sign up to the limit: the one that is too much is refused, and the rest has a total.
-/
theorem total?_at_limit :
    let leapDay : Date := ⟨2024, 2, 29, by decide, by decide, by decide⟩
    let noon : Instant := ⟨leapDay, 43200, 0, by decide, by decide, by decide⟩
    let later : Instant := ⟨leapDay, 43260, 0, by decide, by decide, by decide⟩
    let most : Count := ⟨2 ^ 63 - 4, by decide, by decide⟩
    let requests : List Request := [.increment "a" most later,
      .increment "a" ⟨5, by decide, by decide⟩ noon, .increment "a" ⟨3, by decide, by decide⟩ noon]
    let series : Series :=
      ⟨"a", ⟨noon, later, by decide⟩, .minute, [⟨3, by decide, by decide⟩, most]⟩
    (empty.after requests).counts "a" series.interval .minute = .ok series
      ∧ ∃ total, series.total? = some total ∧ total.val = 2 ^ 63 - 1 := by
  intro leapDay noon later most requests series
  have hok : (empty.after requests).counts "a" series.interval .minute = .ok series := by
    decide +kernel
  obtain ⟨-, htotal, hsign⟩ := total?_tells_history requests "a" series.interval .minute hok
  obtain ⟨total, hsome⟩ := Option.isSome_iff_exists.1 (hsign (.inl (by decide +kernel)))
  refine ⟨hok, total, hsome, ?_⟩
  rw [((htotal total).1 hsome).2]
  decide +kernel

/--
A loss that was accepted between two gains lies after both of them, so a series that ends before it
has no total.
-/
theorem not_total?_isSome : ¬∀ (requests : List Request) (name : String) (interval : Interval)
    (r : Resolution) (s : Series), (empty.after requests).counts name interval r = .ok s →
      ∃ total, s.total? = some total ∧ total.val = (s.counts.map Count.val).sum := by
  intro h
  let leapDay : Date := ⟨2024, 2, 29, by decide, by decide, by decide⟩
  let noon : Instant := ⟨leapDay, 43200, 0, by decide, by decide, by decide⟩
  let second : Instant := ⟨leapDay, 43260, 0, by decide, by decide, by decide⟩
  let third : Instant := ⟨leapDay, 43320, 0, by decide, by decide, by decide⟩
  let gain : Count := ⟨2 ^ 63 - 1, by decide, by decide⟩
  let loss : Count := ⟨-(2 ^ 63 - 1), by decide, by decide⟩
  let requests : List Request :=
    [.increment "a" gain noon, .increment "a" loss third, .increment "a" gain second]
  let series : Series := ⟨"a", ⟨noon, second, by decide⟩, .minute, [gain, gain]⟩
  have hok : (empty.after requests).counts "a" series.interval .minute = .ok series := by
    decide +kernel
  have hnone : series.total? = none := by decide +kernel
  obtain ⟨total, hsome, -⟩ := h requests "a" series.interval .minute series hok
  rw [hnone] at hsome
  cases hsome

end Ledger

end Rollup
