import Rollup.Proofs.Map
import Rollup.Proofs.Text.Numeral
import Rollup.Row

/-!
This module contains the rows that come of the fields of a hash, whatever texts these are. The main
statement is `ofFields_reads_slots`: each slot has the count of the field that denotes it, whichever
order the fields are met in.
-/

namespace Rollup

open Rollup.Text

section

variable {σ : Type} {put : σ → String × Count → σ} (get : σ → Option Count) (ok : σ → Prop)
variable (hits : String → Prop) [DecidablePred hits]

/--
What is read after writing entries: the count of those that hit the place that is read.
-/
theorem get_foldl_put
    (hput : ∀ s e, ok s → ok (put s e) ∧ get (put s e) = if hits e.1 then some e.2 else get s)
    {entries : List (String × Count)} (count : Count)
    (hhits : ∀ e ∈ entries, hits e.1 → e.2 = count)
    {s : σ} (hs : ok s) :
    get (entries.foldl put s) = if ∃ e ∈ entries, hits e.1 then some count else get s := by
  induction entries generalizing s with
  | nil => simp
  | cons e entries ih =>
    obtain ⟨hok, hget⟩ := hput s e hs
    have hrest : ∀ e ∈ entries, hits e.1 → e.2 = count := by
      intro e he
      exact hhits e (List.mem_cons_of_mem _ he)
    rw [List.foldl_cons, ih hrest hok, hget]
    by_cases hhit : hits e.1
    · simp [hhit, hhits e List.mem_cons_self hhit]
    · have hiff : (∃ x ∈ e :: entries, hits x.1) ↔ ∃ x ∈ entries, hits x.1 := by
        simp [hhit]
      rw [if_neg hhit]
      exact ite_cond_congr (propext hiff.symm)

end

namespace Row

/--
A field denotes a slot by the number of its unit, which has at most 64 bits.
-/
def DenotesSlot (size firstUnit slot : Nat) (field : String) : Prop :=
  slot < size ∧ firstUnit + slot < 2 ^ 64 ∧ Denotes field (firstUnit + slot)

/--
The ways in which a field can denote no slot.
-/
inductive Stray (size firstUnit : Nat) (field : String) : Prop where
  | noNumber (h : ∀ n, ¬Denotes field n)
  | tooLarge (n : Nat) (h : Denotes field n) (hn : 2 ^ 64 ≤ n)
  | beforeFirst (n : Nat) (h : Denotes field n) (hn : n < firstUnit)
  | pastLast (n : Nat) (h : Denotes field n) (hn : firstUnit + size ≤ n)

variable {size firstUnit slot : Nat} {field : String} {entries : List (String × Count)}

theorem slotOf?_eq_some_iff_denotesSlot :
    slotOf? size firstUnit field = some slot ↔ DenotesSlot size firstUnit slot field := by
  unfold slotOf? DenotesSlot
  cases hread : readUnsigned 64 field with
  | error e =>
    simp only [reduceCtorEq, false_iff]
    rintro ⟨-, hlt, hdenotes⟩
    rw [readUnsigned_eq_ok_iff.2 ⟨hdenotes, hlt⟩] at hread
    cases hread
  | ok n =>
    obtain ⟨hdenotes, hlt⟩ := readUnsigned_eq_ok_iff.1 hread
    simp only
    constructor
    · intro h
      split at h
      · next hn =>
        obtain rfl := Option.some.inj h
        rw [Nat.add_sub_cancel' hn.1]
        exact ⟨hn.2, hlt, hdenotes⟩
      · cases h
    · rintro ⟨hslot, -, hdenotes'⟩
      obtain rfl := hdenotes.eq hdenotes'
      rw [if_pos ⟨Nat.le_add_right _ _, by omega⟩, Nat.add_sub_cancel_left]

theorem stray_iff : Stray size firstUnit field ↔ slotOf? size firstUnit field = none := by
  rw [Option.eq_none_iff_forall_ne_some]
  constructor
  · intro h slot hslot
    obtain ⟨hslot, hlt, hdenotes⟩ := slotOf?_eq_some_iff_denotesSlot.1 hslot
    cases h with
    | noNumber h => exact h _ hdenotes
    | tooLarge n h hn =>
      obtain rfl := h.eq hdenotes
      omega
    | beforeFirst n h hn =>
      obtain rfl := h.eq hdenotes
      omega
    | pastLast n h hn =>
      obtain rfl := h.eq hdenotes
      omega
  · intro h
    by_cases hnumber : ∃ n, Denotes field n
    · obtain ⟨n, hdenotes⟩ := hnumber
      by_cases hlarge : 2 ^ 64 ≤ n
      · exact .tooLarge n hdenotes hlarge
      · by_cases hfirst : n < firstUnit
        · exact .beforeFirst n hdenotes hfirst
        · refine .pastLast n hdenotes (Nat.le_of_not_lt ?_)
          intro hlast
          -- the number has a slot, which the field would denote
          apply h (n - firstUnit)
          rw [slotOf?_eq_some_iff_denotesSlot]
          refine ⟨by omega, by omega, ?_⟩
          rwa [Nat.add_sub_cancel' (Nat.le_of_not_lt hfirst)]
    · exact .noNumber (not_exists.1 hnumber)

instance : DecidablePred (Stray size firstUnit) :=
  fun _ => decidable_of_iff _ stray_iff.symm

theorem getElem?_put (row : List Count) (entry : String × Count) (hslot : slot < row.length) :
    slot < (ofFields.put size firstUnit row entry).length
      ∧ (ofFields.put size firstUnit row entry)[slot]?
        = if slotOf? size firstUnit entry.1 = some slot then some entry.2 else row[slot]? := by
  unfold ofFields.put
  cases h : slotOf? size firstUnit entry.1 with
  | none => simpa using hslot
  | some other =>
    refine ⟨by simpa using hslot, ?_⟩
    rw [List.getElem?_set]
    by_cases hother : other = slot
    · subst hother
      simp [hslot]
    · simp [hother]

theorem getElem?_ofFields (hslot : slot < size) (count : Count)
    (hcount : ∀ e ∈ entries, slotOf? size firstUnit e.1 = some slot → e.2 = count) :
    (ofFields size firstUnit entries)[slot]?
      = if ∃ e ∈ entries, slotOf? size firstUnit e.1 = some slot then some count else some 0 := by
  have hzero : (List.replicate size (0 : Count))[slot]? = some 0 := by
    simp [hslot]
  unfold ofFields
  rw [get_foldl_put (fun row : List Count => row[slot]?) (fun row => slot < row.length)
    (fun f => slotOf? size firstUnit f = some slot) getElem?_put count hcount
    (by simpa using hslot), hzero]

section

variable {hash : Std.ExtTreeMap String Count} (hentries : entries.Perm hash.toList)

include hentries

theorem mem_entries_iff {count : Count} : (field, count) ∈ entries ↔ hash[field]? = some count := by
  rw [hentries.mem_iff, Std.ExtTreeMap.mem_toList_iff_getElem?_eq_some]

theorem getElem?_ofFields_of_denotesSlot (hfield : field ∈ hash)
    (hdenotes : DenotesSlot size firstUnit slot field)
    (honly : ∀ f ∈ hash, DenotesSlot size firstUnit slot f → f = field) :
    (ofFields size firstUnit entries)[slot]? = hash[field]? := by
  have hcount : hash[field]? = some (hash.getD field 0) :=
    Std.ExtTreeMap.getElem?_eq_some_getD hfield
  rw [getElem?_ofFields hdenotes.1 (hash.getD field 0), if_pos, hcount]
  · exact ⟨_, (mem_entries_iff hentries).2 hcount, slotOf?_eq_some_iff_denotesSlot.2 hdenotes⟩
  · rintro ⟨f, count⟩ he hf
    have hget := (mem_entries_iff hentries).1 he
    have hmem : f ∈ hash := by
      rw [Std.ExtTreeMap.mem_iff_isSome_getElem?, hget]
      rfl
    obtain rfl := honly f hmem (slotOf?_eq_some_iff_denotesSlot.1 hf)
    exact Option.some.inj (hget.symm.trans hcount)

theorem getElem?_ofFields_of_forall_not (hslot : slot < size)
    (hnone : ∀ f ∈ hash, ¬DenotesSlot size firstUnit slot f) :
    (ofFields size firstUnit entries)[slot]? = some 0 := by
  have hno : ∀ e ∈ entries, slotOf? size firstUnit e.1 ≠ some slot := by
    rintro ⟨f, count⟩ he hf
    apply hnone f
    · rw [Std.ExtTreeMap.mem_iff_isSome_getElem?, (mem_entries_iff hentries).1 he]
      rfl
    · exact slotOf?_eq_some_iff_denotesSlot.1 hf
  rw [getElem?_ofFields hslot 0 (fun e he hf => absurd hf (hno e he))]
  split <;> rfl

theorem dropped_eq_countP :
    dropped size firstUnit entries = hash.keys.countP (Stray size firstUnit) := by
  unfold dropped
  rw [hentries.countP_eq, ← Std.ExtTreeMap.map_fst_toList_eq_keys, List.countP_map]
  apply List.countP_congr
  intro e _
  simp [stray_iff]

end

section

variable {hash : Std.ExtTreeMap String Count}
  (hone : ∀ slot, ∀ f ∈ hash, ∀ g ∈ hash, DenotesSlot size firstUnit slot f →
    DenotesSlot size firstUnit slot g → f = g)

include hone

theorem getElem?_ofFields_of_one (hentries : entries.Perm hash.toList) (hslot : slot < size) :
    (∀ field ∈ hash, DenotesSlot size firstUnit slot field →
        (ofFields size firstUnit entries)[slot]? = hash[field]?)
      ∧ ((∀ field ∈ hash, ¬DenotesSlot size firstUnit slot field) →
        (ofFields size firstUnit entries)[slot]? = some 0) := by
  constructor
  · intro field hfield hdenotes
    apply getElem?_ofFields_of_denotesSlot hentries hfield hdenotes
    exact fun f hf hf' => hone slot f hf field hfield hf' hdenotes
  · exact getElem?_ofFields_of_forall_not hentries hslot

theorem ofFields_eq_of_perm (hentries : entries.Perm hash.toList) :
    ofFields size firstUnit entries = ofFields size firstUnit hash.toList := by
  apply List.ext_getElem?
  intro slot
  by_cases hslot : slot < size
  · have hleft := getElem?_ofFields_of_one hone hentries hslot
    have hright := getElem?_ofFields_of_one hone (.refl hash.toList) hslot
    -- both rows have the count of the one field that denotes the slot, or both have zero
    by_cases hany : ∃ field ∈ hash, DenotesSlot size firstUnit slot field
    · obtain ⟨field, hfield, hdenotes⟩ := hany
      rw [hleft.1 field hfield hdenotes, hright.1 field hfield hdenotes]
    · have hnone : ∀ field ∈ hash, ¬DenotesSlot size firstUnit slot field :=
        fun field hfield hdenotes => hany ⟨field, hfield, hdenotes⟩
      rw [hleft.2 hnone, hright.2 hnone]
  · rw [List.getElem?_eq_none, List.getElem?_eq_none]
    · rw [length_ofFields]
      exact Nat.le_of_not_lt hslot
    · rw [length_ofFields]
      exact Nat.le_of_not_lt hslot

end

/--
Out of any hash comes one count per slot: that of the field that denotes the slot, or zero. The
other fields are dropped and counted, and nothing depends on the order of the fields.
-/
theorem ofFields_reads_slots (size firstUnit : Nat) {hash : Std.ExtTreeMap String Count}
    (hone : ∀ slot, ∀ f ∈ hash, ∀ g ∈ hash, DenotesSlot size firstUnit slot f →
      DenotesSlot size firstUnit slot g → f = g)
    {entries : List (String × Count)} (hentries : entries.Perm hash.toList) :
    let row := ofFields size firstUnit entries
    row.length = size
      ∧ (∀ field slot, slotOf? size firstUnit field = some slot
        ↔ DenotesSlot size firstUnit slot field)
      ∧ (∀ slot < size,
        (∀ field ∈ hash, DenotesSlot size firstUnit slot field → row[slot]? = hash[field]?)
          ∧ ((∀ field ∈ hash, ¬DenotesSlot size firstUnit slot field) → row[slot]? = some 0))
      ∧ dropped size firstUnit entries = hash.keys.countP (Stray size firstUnit)
      ∧ row = ofFields size firstUnit hash.toList :=
  ⟨length_ofFields _ _ _, fun _ _ => slotOf?_eq_some_iff_denotesSlot,
    fun _ hslot => getElem?_ofFields_of_one hone hentries hslot, dropped_eq_countP hentries,
    ofFields_eq_of_perm hone hentries⟩

/--
The days of a month in a hash with texts of all kinds: among them a number whose last 64 bits are
those of the first day, a digit of another script and the number of a day that the month lacks.
-/
theorem ofFields_reads_days :
    let count (n : Nat) : Count := (Count.ofInt? n).getD 0
    let hash : Std.ExtTreeMap String Count := .ofList [("", count 1), ("+007", count 2),
      ("0", count 3), ("31", count 4), ("30", count 5), ("-1", count 6), ("1 ", count 7),
      ("18446744073709551617", count 8), ("\u0663", count 9)]
    let entries := hash.toList.reverse
    (∀ slot, ∀ f ∈ hash, ∀ g ∈ hash, DenotesSlot 30 1 slot f → DenotesSlot 30 1 slot g → f = g)
      ∧ entries.Perm hash.toList
      ∧ (ofFields 30 1 entries)[6]? = some (count 2) ∧ (ofFields 30 1 entries)[29]? = some (count 5)
      ∧ dropped 30 1 entries = 7 := by
  intro count hash entries
  have hdistinct : ∀ f ∈ hash.keys, ∀ g ∈ hash.keys, (slotOf? 30 1 f).isSome →
      slotOf? 30 1 f = slotOf? 30 1 g → f = g := by
    decide +kernel
  have hone : ∀ slot, ∀ f ∈ hash, ∀ g ∈ hash, DenotesSlot 30 1 slot f →
      DenotesSlot 30 1 slot g → f = g := by
    intro slot f hf g hg hfslot hgslot
    rw [← slotOf?_eq_some_iff_denotesSlot] at hfslot hgslot
    apply hdistinct f (Std.ExtTreeMap.mem_keys.2 hf) g (Std.ExtTreeMap.mem_keys.2 hg)
    · rw [hfslot]
      rfl
    · rw [hfslot, hgslot]
  have hentries : entries.Perm hash.toList := List.reverse_perm _
  obtain ⟨-, hdenotes, hslots, hdropped, -⟩ := ofFields_reads_slots 30 1 hone hentries
  have hseventh := (hslots 6 (by decide)).1 "+007" (by decide +kernel)
    ((hdenotes _ _).1 (by decide +kernel))
  have hlast := (hslots 29 (by decide)).1 "30" (by decide +kernel)
    ((hdenotes _ _).1 (by decide +kernel))
  refine ⟨hone, hentries, hseventh.trans ?_, hlast.trans ?_, hdropped.trans ?_⟩
  · decide +kernel
  · decide +kernel
  · decide +kernel

end Row

end Rollup
