import Mathlib.Algebra.Ring.Int.Defs
import Mathlib.Algebra.Ring.Nat
import Mathlib.Tactic.Linarith
import Rollup.Request

/-!
This module contains journals: what each counter was asked to count and accepted since it was reset
last. A journal is kept from requests and their answers alone, so it is common ground for all ways
to keep counters.
-/

namespace Rollup

open Rollup.Time

structure Entry where
  amount : Count
  instant : Instant

def sumWhere (p : Instant → Prop) [DecidablePred p] (entries : List Entry) : Int :=
  ((entries.filter fun e => p e.instant).map fun e => e.amount.val).sum

section

variable {p q : Instant → Prop} [DecidablePred p] [DecidablePred q]

@[simp]
theorem sumWhere_nil : sumWhere p [] = 0 := rfl

@[simp]
theorem sumWhere_append (entries later : List Entry) :
    sumWhere p (entries ++ later) = sumWhere p entries + sumWhere p later := by
  simp [sumWhere]

@[simp]
theorem sumWhere_singleton (e : Entry) :
    sumWhere p [e] = if p e.instant then e.amount.val else 0 := by
  unfold sumWhere
  by_cases h : p e.instant
  · simp [h]
  · simp [h]

theorem sumWhere_congr {entries : List Entry} (h : ∀ e ∈ entries, p e.instant ↔ q e.instant) :
    sumWhere p entries = sumWhere q entries := by
  unfold sumWhere
  congr 2
  apply List.filter_congr
  intro e he
  simp [h e he]

theorem sumWhere_cons (e : Entry) (entries : List Entry) :
    sumWhere p (e :: entries) = (if p e.instant then e.amount.val else 0) + sumWhere p entries := by
  rw [← List.singleton_append, sumWhere_append, sumWhere_singleton]

theorem sumWhere_false (entries : List Entry) : sumWhere (fun _ => False) entries = 0 := by
  unfold sumWhere
  rw [List.filter_eq_nil_iff.2 (by simp)]
  rfl

theorem sumWhere_or (h : ∀ a, p a → ¬q a) (entries : List Entry) :
    sumWhere (fun a => p a ∨ q a) entries = sumWhere p entries + sumWhere q entries := by
  induction entries with
  | nil => rfl
  | cons e entries ih =>
    rw [sumWhere_cons, sumWhere_cons, sumWhere_cons, ih]
    by_cases hp : p e.instant
    · have hq := h _ hp
      simp only [hp, hq, or_false, if_true, if_false]
      omega
    · simp only [hp, false_or, if_false]
      omega

/--
Sums over the entries that have different values make up the sum over those that have any of them.
-/
theorem sum_map_sumWhere {β : Type} [DecidableEq β] {values : List β} (hnodup : values.Nodup)
    (f : Instant → β) (entries : List Entry) :
    (values.map fun value => sumWhere (fun a => f a = value) entries).sum
      = sumWhere (fun a => f a ∈ values) entries := by
  induction values with
  | nil => simp [sumWhere_false]
  | cons value values ih =>
    obtain ⟨hfresh, hnodup⟩ := List.nodup_cons.1 hnodup
    rw [List.map_cons, List.sum_cons, ih hnodup, ← sumWhere_or]
    · apply sumWhere_congr
      intro e _
      rw [List.mem_cons]
    · rintro a rfl
      exact hfresh

/--
Amounts of one sign: the more entries, the farther from zero is their sum.
-/
theorem mul_sumWhere_le {sign : Int} {entries : List Entry}
    (hsign : ∀ e ∈ entries, 0 ≤ sign * e.amount.val) (h : ∀ a, p a → q a) :
    sign * sumWhere p entries ≤ sign * sumWhere q entries := by
  induction entries with
  | nil => rfl
  | cons e entries ih =>
    have hfirst := hsign e List.mem_cons_self
    have hrest := ih fun e' he' => hsign e' (List.mem_cons_of_mem _ he')
    rw [sumWhere_cons, sumWhere_cons, Int.mul_add, Int.mul_add]
    by_cases hp : p e.instant
    · rw [if_pos hp, if_pos (h _ hp)]
      exact Int.add_le_add_left hrest _
    · rw [if_neg hp, Int.mul_zero]
      split
      · linarith
      · linarith

end

abbrev Journal := String → List Entry

namespace Journal

def empty : Journal := fun _ => []

/--
Take down an answered request. Only an increment or a reset that succeeded changes a journal.
-/
def record (j : Journal) (r : Request) (answer : Except CounterError Answer) : Journal :=
  match r, answer with
  | .increment name amount instant, .ok _ =>
    fun n => if n = name then j n ++ [⟨amount, instant⟩] else j n
  | .reset name, .ok _ => fun n => if n = name then [] else j n
  | _, _ => j

def ofAnswers (requests : List Request) (answers : List (Except CounterError Answer)) : Journal :=
  (requests.zip answers).foldl (fun j (r, answer) => j.record r answer) empty

end Journal

namespace Ledger

def after (l : Ledger) (requests : List Request) : Ledger :=
  requests.foldl (fun l r => (l.answer r).2) l

def answers (l : Ledger) : List Request → List (Except CounterError Answer)
  | [] => []
  | r :: requests => (l.answer r).1 :: answers (l.answer r).2 requests

end Ledger

end Rollup
