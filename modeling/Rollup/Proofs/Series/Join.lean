import Rollup.Retry.Concurrent
import Rollup.Session.Recorded
import Rollup.Proofs.Series.Slots
import Rollup.Proofs.Series.Walk

/-!
This module contains sources of rows that may be slow. Several rows are asked for at the same time,
each call being answered at once or later, in an order that is up to the source, and the answers are
joined. The main statement is `outcome_join`: a join either has every row, or it fails as the first
of its calls does that has failed.
-/

namespace Rollup

open Rollup.Retry Rollup.Session Rollup.Time

/--
A source of rows, of which several may be asked for at the same time.
-/
structure Service (σ : Type) where
  -- ask for the row of a bucket, which may be answered at once
  row : String → Bucket → Instant → σ → Option (Except CounterError (List Count)) × σ
  -- answer one of `n + 1` calls that wait, told by its place among them
  later : (n : Nat) → σ → (Fin (n + 1) × Except CounterError (List Count)) × σ
  years : String → σ → Except CounterError YearCounts × σ

def failureOf {α : Type} : Except CounterError α → Option CounterError
  | .ok _ => none
  | .error e => some e

/--
What a call has been answered, if it does not wait.
-/
abbrev Slot := Option (Except CounterError (List Count))

namespace Slot

def failure? (slot : Slot) : Option CounterError :=
  slot.bind failureOf

def row? : Slot → Option (List Count)
  | some (.ok row) => some row
  | _ => none

def HasRow (slot : Slot) : Prop :=
  ∃ row, slot = some (.ok row)

/--
The failure that ends a join of some calls. A prompt join ends with the first failure there is, any
other takes the answers in the order of the calls, so that it goes on while a call before waits.
-/
def ending? (prompt : Bool) : List Slot → Option CounterError
  | [] => none
  | some (.ok _) :: slots => ending? prompt slots
  | some (.error e) :: _ => some e
  | none :: slots => if prompt then ending? prompt slots else none

def outcome (prompt : Bool) (slots : List Slot) : Except CounterError (List (List Count)) :=
  match ending? prompt slots with
  | some e => .error e
  | none => .ok (slots.filterMap row?)

def waiting (slots : List Slot) : Nat :=
  slots.countP Option.isNone

/--
Answer one of the calls that wait.
-/
def answer (result : Except CounterError (List Count)) : Nat → List Slot → List Slot
  | _, [] => []
  | 0, none :: slots => some result :: slots
  | place + 1, none :: slots => none :: answer result place slots
  | place, some earlier :: slots => some earlier :: answer result place slots

end Slot

namespace Service

open Slot

variable {σ : Type}

def ask (service : Service σ) (prompt : Bool) (name : String) (b : Bucket) :
    List Instant → List Slot → σ → List Slot × σ
  | [], slots, s => (slots, s)
  | start :: starts, slots, s =>
    let (slot, s) := service.row name b start s
    let slots := slots ++ [slot]
    if (ending? prompt slots).isSome then
      (slots, s)
    else
      service.ask prompt name b starts slots s

def await (service : Service σ) (prompt : Bool) : Nat → List Slot → σ → List Slot × σ
  | 0, slots, s => (slots, s)
  | n + 1, slots, s =>
    let ((place, result), s) := service.later n s
    let slots := answer result place slots
    if (ending? prompt slots).isSome then
      (slots, s)
    else
      service.await prompt n slots s

/--
What has come of the calls for the rows of some buckets when their join ends.
-/
def join (service : Service σ) (prompt : Bool) (name : String) (b : Bucket)
    (starts : List Instant) (s : σ) : List Slot × σ :=
  let (slots, s) := service.ask prompt name b starts [] s
  if (ending? prompt slots).isSome then
    (slots, s)
  else
    service.await prompt (waiting slots) slots s

end Service

structure Call where
  fetch : Fetch
  -- what it failed with, if it failed before the end
  failure? : Option CounterError

/--
The state of a service, with the calls that have been made to it, in their order.
-/
structure Traced (σ : Type) where
  state : σ
  calls : List Call

/--
The calls for rows, with what came of each that has been made.
-/
def rowCalls (name : String) (b : Bucket) (starts : List Instant) (slots : List Slot) : List Call :=
  starts.zipWith (fun start slot => ⟨.row name b start, slot.failure?⟩) slots

def Service.source {σ : Type} (service : Service σ) : Source (Fetching (Traced σ)) where
  rows name b starts := ExceptT.mk do
    let t ← get
    let prompt := starts.length ≤ Reading.promptLength
    let (slots, state) := service.join prompt name b starts t.state
    set (⟨state, t.calls ++ rowCalls name b starts slots⟩ : Traced σ)
    return Slot.outcome prompt slots
  yearCounts name := ExceptT.mk do
    let t ← get
    let (result, state) := service.years name t.state
    set (⟨state, t.calls ++ [⟨.years name, failureOf result⟩]⟩ : Traced σ)
    return result

/--
The first failure among the answers to some calls.
-/
def FailsFirst (failures : List (Option CounterError)) (k : Nat) (e : CounterError) : Prop :=
  failures[k]? = some (some e) ∧ ∀ j < k, failures[j]? = some none

namespace FailsFirst

variable {failures : List (Option CounterError)} {k : Nat} {e e' : CounterError}

theorem of_cons_none (h : FailsFirst (none :: failures) k e) :
    ∃ j, k = j + 1 ∧ FailsFirst failures j e := by
  cases k with
  | zero => cases h.1
  | succ k => exact ⟨k, rfl, h.1, fun j hj => h.2 (j + 1) (Nat.succ_lt_succ hj)⟩

theorem of_cons_some (h : FailsFirst (some e' :: failures) k e) : k = 0 ∧ e' = e := by
  cases k with
  | zero =>
    cases h.1
    exact ⟨rfl, rfl⟩
  | succ k => cases h.2 0 (Nat.zero_lt_succ k)

end FailsFirst

namespace Slot

variable {prompt : Bool} {slots : List Slot} {e : CounterError} {k : Nat}

/--
What ends a join is the failure of the first call that has failed, even if another failed sooner.
-/
theorem ending?_eq_of_failsFirst (h : FailsFirst (slots.map failure?) k e)
    (hending : (ending? prompt slots).isSome) : ending? prompt slots = some e := by
  induction slots generalizing k with
  | nil => cases hending
  | cons slot slots ih =>
    match slot with
    | some (.ok _) =>
      obtain ⟨j, -, hj⟩ := FailsFirst.of_cons_none h
      exact ih hj hending
    | some (.error e') => exact congrArg some (FailsFirst.of_cons_some h).2
    | none =>
      obtain ⟨j, -, hj⟩ := FailsFirst.of_cons_none h
      unfold ending? at hending ⊢
      split
      · next hprompt =>
        rw [if_pos hprompt] at hending
        exact ih hj hending
      · next hprompt =>
        rw [if_neg hprompt] at hending
        cases hending

theorem mem_failures_of_ending? (h : ending? prompt slots = some e) :
    some e ∈ slots.map failure? := by
  induction slots with
  | nil => cases h
  | cons slot slots ih =>
    match slot with
    | some (.ok _) => exact List.mem_cons_of_mem _ (ih h)
    | some (.error e') =>
      cases h
      exact List.mem_cons_self
    | none =>
      unfold ending? at h
      split at h
      · exact List.mem_cons_of_mem _ (ih h)
      · cases h

theorem eq_ok_of_ending?_eq_none (h : ending? prompt slots = none) (hwaiting : waiting slots = 0) :
    ∀ slot ∈ slots, slot.HasRow := by
  induction slots with
  | nil => simp
  | cons slot slots ih =>
    match slot with
    | some (.ok row) => exact List.forall_mem_cons.2 ⟨⟨row, rfl⟩, ih h hwaiting⟩
    | some (.error e) => cases h
    | none =>
      rw [waiting, List.countP_cons_of_pos rfl] at hwaiting
      cases hwaiting

section

variable {rest : List Slot}

theorem hasRow_append_singleton (h : ∀ slot ∈ slots, slot.HasRow) (row : List Count) :
    ∀ slot ∈ slots ++ [some (.ok row)], slot.HasRow := by
  intro slot hmem
  rcases List.mem_append.1 hmem with hmem | hmem
  · exact h slot hmem
  · exact ⟨row, List.mem_singleton.1 hmem⟩

theorem waiting_append (slots rest : List Slot) :
    waiting (slots ++ rest) = waiting slots + waiting rest :=
  List.countP_append

theorem waiting_of_hasRow (h : ∀ slot ∈ slots, slot.HasRow) : waiting slots = 0 := by
  apply List.countP_eq_zero.2
  intro slot hslot
  obtain ⟨row, rfl⟩ := h slot hslot
  simp

theorem not_failsFirst_of_hasRow (h : ∀ slot ∈ slots, slot.HasRow) :
    ¬FailsFirst (slots.map failure?) k e := by
  intro hfails
  obtain ⟨slot, hslot, hfailure⟩ := List.mem_map.1 (List.mem_of_getElem? hfails.1)
  obtain ⟨row, rfl⟩ := h slot hslot
  cases hfailure

theorem ending?_append (prompt : Bool) (h : ∀ slot ∈ slots, slot.HasRow) (rest : List Slot) :
    ending? prompt (slots ++ rest) = ending? prompt rest := by
  induction slots with
  | nil => rfl
  | cons slot slots ih =>
    obtain ⟨⟨row, rfl⟩, hrest⟩ := List.forall_mem_cons.1 h
    exact ih hrest

theorem ending?_of_hasRow (prompt : Bool) (h : ∀ slot ∈ slots, slot.HasRow) :
    ending? prompt slots = none := by
  have hnone := ending?_append prompt h []
  rwa [List.append_nil] at hnone

theorem of_failsFirst_append (h : ∀ slot ∈ slots, slot.HasRow)
    (hfails : FailsFirst ((slots ++ rest).map failure?) k e) :
    ∃ j, k = slots.length + j ∧ FailsFirst (rest.map failure?) j e := by
  induction slots generalizing k with
  | nil => exact ⟨k, by simp, hfails⟩
  | cons slot slots ih =>
    obtain ⟨⟨row, rfl⟩, hrest⟩ := List.forall_mem_cons.1 h
    obtain ⟨j, rfl, hj⟩ := FailsFirst.of_cons_none hfails
    obtain ⟨i, rfl, hi⟩ := ih hrest hj
    exact ⟨i, by rw [List.length_cons]; omega, hi⟩

end

@[simp]
theorem length_answer (result : Except CounterError (List Count)) (place : Nat)
    (slots : List Slot) : (answer result place slots).length = slots.length := by
  fun_induction answer result place slots with
  | case1 => rfl
  | case2 => rfl
  | case3 place slots ih => rw [List.length_cons, ih, List.length_cons]
  | case4 place earlier slots ih => rw [List.length_cons, ih, List.length_cons]

theorem waiting_answer (result : Except CounterError (List Count)) {place : Nat}
    (h : place < waiting slots) : waiting (answer result place slots) + 1 = waiting slots := by
  unfold waiting at *
  fun_induction answer result place slots with
  | case1 => cases h
  | case2 slots => simp
  | case3 place slots ih =>
    rw [List.countP_cons_of_pos rfl] at h ⊢
    rw [List.countP_cons_of_pos rfl, ih (Nat.lt_of_succ_lt_succ h)]
  | case4 place earlier slots ih =>
    rw [List.countP_cons_of_neg (by simp)] at h ⊢
    rw [List.countP_cons_of_neg (by simp), ih h]

end Slot

namespace Service

open Slot

variable {σ : Type} (service : Service σ) (prompt : Bool) (name : String) (b : Bucket)

theorem ask_ends (starts : List Instant) (slots : List Slot) (s : σ) :
    let out := (service.ask prompt name b starts slots s).1
    out.length ≤ slots.length + starts.length
      ∧ ((ending? prompt out).isSome ∨ out.length = slots.length + starts.length) := by
  induction starts generalizing slots s with
  | nil => exact ⟨Nat.le_refl _, Or.inr rfl⟩
  | cons start starts ih =>
    unfold ask
    generalize service.row name b start s = out
    obtain ⟨slot, s'⟩ := out
    simp only [List.length_cons]
    split
    · next hending =>
      refine ⟨?_, Or.inl hending⟩
      rw [List.length_append, List.length_singleton]
      omega
    · obtain ⟨hle, hends⟩ := ih (slots ++ [slot]) s'
      rw [List.length_append, List.length_singleton] at hle hends
      rw [show slots.length + (starts.length + 1) = slots.length + 1 + starts.length by omega]
      exact ⟨hle, hends⟩

theorem await_ends {n : Nat} {slots : List Slot} (hn : waiting slots = n)
    (hopen : ending? prompt slots = none) (s : σ) :
    let out := (service.await prompt n slots s).1
    out.length = slots.length
      ∧ ((ending? prompt out).isSome ∨ ∀ slot ∈ out, slot.HasRow) := by
  induction n generalizing slots s with
  | zero => exact ⟨rfl, Or.inr (eq_ok_of_ending?_eq_none hopen hn)⟩
  | succ n ih =>
    unfold await
    generalize service.later n s = out
    obtain ⟨⟨place, result⟩, s'⟩ := out
    have hplace : (place : Nat) < waiting slots := by
      rw [hn]
      exact place.isLt
    have hwaiting : waiting (answer result place slots) = n := by
      have := waiting_answer result hplace
      omega
    simp only
    split
    · next hending => exact ⟨length_answer .., Or.inl hending⟩
    · next hending =>
      rw [Option.not_isSome_iff_eq_none] at hending
      obtain ⟨hlength, hends⟩ := ih hwaiting hending s'
      exact ⟨hlength.trans (length_answer ..), hends⟩

theorem join_ends (starts : List Instant) (s : σ) :
    let out := (service.join prompt name b starts s).1
    out.length ≤ starts.length
      ∧ ((ending? prompt out).isSome
        ∨ out.length = starts.length ∧ ∀ slot ∈ out, slot.HasRow) := by
  obtain ⟨hle, hends⟩ := service.ask_ends prompt name b starts [] s
  rw [List.length_nil, Nat.zero_add] at hle hends
  unfold join
  generalize service.ask prompt name b starts [] s = out at hle hends
  obtain ⟨slots, s'⟩ := out
  simp only at hle hends ⊢
  split
  · next hending => exact ⟨hle, Or.inl hending⟩
  · next hending =>
    have hlength := hends.resolve_left hending
    rw [Option.not_isSome_iff_eq_none] at hending
    obtain ⟨hsame, hawait⟩ := service.await_ends prompt rfl hending s'
    rw [hsame]
    exact ⟨hle, hawait.imp_right fun hrows => ⟨hlength, hrows⟩⟩

/--
Without a failure a join has every row, and it fails as the first of its calls does that has failed.
-/
theorem outcome_join (starts : List Instant) (s : σ) :
    let out := (service.join prompt name b starts s).1
    ((∀ slot ∈ out, slot.failure? = none) →
        out.length = starts.length ∧ ∃ rows, outcome prompt out = .ok rows)
      ∧ ∀ k e, FailsFirst (out.map failure?) k e → outcome prompt out = .error e := by
  obtain ⟨-, hends⟩ := service.join_ends prompt name b starts s
  generalize (service.join prompt name b starts s).1 = out at hends
  constructor
  · intro hnone
    rcases hends with hending | ⟨hlength, hrows⟩
    · obtain ⟨e, he⟩ := Option.isSome_iff_exists.1 hending
      obtain ⟨slot, hslot, hfailure⟩ := List.mem_map.1 (mem_failures_of_ending? he)
      rw [hnone slot hslot] at hfailure
      cases hfailure
    · refine ⟨hlength, out.filterMap row?, ?_⟩
      rw [outcome, ending?_of_hasRow prompt hrows]
  · intro k e hfails
    rcases hends with hending | ⟨-, hrows⟩
    · rw [outcome, ending?_eq_of_failsFirst hfails hending]
    · exact absurd hfails (not_failsFirst_of_hasRow hrows)

def AnswersAtOnce : Prop :=
  ∀ name b start s, (service.row name b start s).1.isSome

variable {service}

theorem AnswersAtOnce.ask (h : service.AnswersAtOnce) (starts : List Instant) {slots : List Slot}
    (hslots : ∀ slot ∈ slots, slot.HasRow) (s : σ) :
    let out := (service.ask prompt name b starts slots s).1
    waiting out = 0 ∧ ∀ k e, FailsFirst (out.map failure?) k e → out.length = k + 1 := by
  induction starts generalizing slots s with
  | nil =>
    refine ⟨waiting_of_hasRow hslots, ?_⟩
    exact fun k e hfails => absurd hfails (not_failsFirst_of_hasRow hslots)
  | cons start starts ih =>
    unfold Service.ask
    have hslot := h name b start s
    generalize service.row name b start s = out at hslot
    obtain ⟨slot, s'⟩ := out
    simp only
    rw [ending?_append prompt hslots]
    match slot with
    | some (.ok row) => exact ih (hasRow_append_singleton hslots row) s'
    | some (.error e') =>
      refine ⟨?_, ?_⟩
      · change waiting (slots ++ _) = 0
        rw [waiting_append, waiting_of_hasRow hslots]
        rfl
      · intro k e hfails
        obtain ⟨j, rfl, hj⟩ := of_failsFirst_append hslots hfails
        change (slots ++ _).length = _
        rw [List.length_append, (FailsFirst.of_cons_some hj).1]
        rfl
    | none => cases hslot

theorem AnswersAtOnce.join_eq_ask (h : service.AnswersAtOnce) (starts : List Instant) (s : σ) :
    service.join prompt name b starts s = service.ask prompt name b starts [] s := by
  have hwaiting := (h.ask prompt name b starts (List.forall_mem_nil _) s).1
  unfold Service.join
  generalize service.ask prompt name b starts [] s = out at hwaiting
  obtain ⟨slots, s'⟩ := out
  simp only at hwaiting ⊢
  rw [hwaiting]
  split <;> rfl

theorem AnswersAtOnce.length_join (h : service.AnswersAtOnce) (starts : List Instant) (s : σ)
    {k : Nat} {e : CounterError}
    (hfails : FailsFirst ((service.join prompt name b starts s).1.map failure?) k e) :
    (service.join prompt name b starts s).1.length = k + 1 := by
  rw [h.join_eq_ask] at hfails ⊢
  exact (h.ask prompt name b starts (List.forall_mem_nil _) s).2 k e hfails

end Service

end Rollup
