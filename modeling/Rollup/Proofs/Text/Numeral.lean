import Mathlib.Algebra.Ring.Int.Defs
import Mathlib.Algebra.Ring.Nat
import Rollup.Text.Numeral

/-!
This module contains the round trip of decimal numerals: a written number is read back, and
different numbers are written differently at every width. Two numerals in a row are that of a longer
number exactly if `padInt_eq_append_iff` says so. Which texts are read at all, written that way or
not, is said by `readUnsigned_eq_ok_iff`.
-/

namespace Rollup.Text

variable {bits width limit value n m k : Nat} {excess : NumeralError} {cs : List Char}

theorem toList_padNat (width n : Nat) : (padNat width n).toList
    = List.replicate (width - (Nat.toDigits 10 n).length) '0' ++ Nat.toDigits 10 n :=
  String.toList_ofList

theorem ofDigitChars_padNat (width n : Nat) : Nat.ofDigitChars 10 (padNat width n).toList 0 = n := by
  rw [toList_padNat, Nat.ofDigitChars_append, Nat.ofDigitChars_replicate_zero, Nat.mul_zero,
    Nat.ofDigitChars_ten_toDigits]

theorem padNat_injective (h : padNat width n = padNat width m) : n = m := by
  rw [← ofDigitChars_padNat width n, h, ofDigitChars_padNat]

theorem isDigit_of_mem_padNat {c : Char} (h : c ∈ (padNat width n).toList) : c.isDigit := by
  rw [toList_padNat, List.mem_append] at h
  rcases h with h | h
  · rw [(List.mem_replicate.1 h).2]
    rfl
  · exact Nat.isDigit_of_mem_toDigits (by decide) (by decide) h

theorem padNat_ne_empty (width n : Nat) : (padNat width n).toList ≠ [] := by
  rw [toList_padNat]
  intro h
  exact Nat.toDigits_ne_nil (List.append_eq_nil_iff.1 h).2

theorem length_padNat (hwidth : 0 < width) (h : n < 10 ^ width) :
    (padNat width n).toList.length = width := by
  have := (Nat.length_toDigits_le_iff (by decide) hwidth).2 h
  rw [toList_padNat, List.length_append, List.length_replicate]
  omega

theorem toList_padInt_of_neg {n : Int} (h : n < 0) :
    (padInt width n).toList = '-' :: (padNat (width - 1) n.natAbs).toList := by
  rw [padInt, if_pos h, String.toList_append]
  rfl

theorem toList_padInt_of_nonneg {n : Int} (h : 0 ≤ n) :
    (padInt width n).toList = (padNat width n.natAbs).toList := by
  rw [padInt, if_neg (Int.not_lt.2 h)]

theorem mem_padInt {n : Int} {c : Char} (h : c ∈ (padInt width n).toList) :
    c = '-' ∨ c.isDigit := by
  by_cases hn : n < 0
  · rw [toList_padInt_of_neg hn, List.mem_cons] at h
    exact h.imp_right isDigit_of_mem_padNat
  · rw [toList_padInt_of_nonneg (Int.not_lt.1 hn)] at h
    exact Or.inr (isDigit_of_mem_padNat h)

theorem minus_not_mem_padNat : '-' ∉ (padNat width n).toList :=
  fun h => absurd (isDigit_of_mem_padNat h) (by decide)

theorem padInt_injective {n m : Int} (h : padInt width n = padInt width m) : n = m := by
  have h := congrArg String.toList h
  rcases Int.lt_or_le n 0 with hn | hn
  · rw [toList_padInt_of_neg hn] at h
    rcases Int.lt_or_le m 0 with hm | hm
    · rw [toList_padInt_of_neg hm] at h
      have := padNat_injective (String.toList_inj.1 (List.cons.inj h).2)
      omega
    · rw [toList_padInt_of_nonneg hm] at h
      exact absurd (h ▸ List.mem_cons_self) minus_not_mem_padNat
  · rw [toList_padInt_of_nonneg hn] at h
    rcases Int.lt_or_le m 0 with hm | hm
    · rw [toList_padInt_of_neg hm] at h
      exact absurd (h ▸ List.mem_cons_self) minus_not_mem_padNat
    · rw [toList_padInt_of_nonneg hm] at h
      have := padNat_injective (String.toList_inj.1 h)
      omega

/--
Numbers of few digits are written in one width, the minus sign of the longest ones aside.
-/
theorem length_padInt {n : Int} (hwidth : 1 < width) (h : n.natAbs < 10 ^ width) :
    (padInt width n).toList.length = if n.natAbs < 10 ^ (width - 1) ∨ 0 ≤ n then width
      else width + 1 := by
  rcases Int.lt_or_le n 0 with hn | hn
  · rw [toList_padInt_of_neg hn, List.length_cons]
    by_cases hshort : n.natAbs < 10 ^ (width - 1)
    · rw [if_pos (Or.inl hshort), length_padNat (by omega) hshort]
      omega
    · have hlong := (Nat.length_toDigits_le_iff (by decide) (by omega)).2 h
      have hshort := mt (Nat.length_toDigits_le_iff (n := n.natAbs) (by decide)
        (show 0 < width - 1 by omega)).1 hshort
      rw [if_neg (by omega), toList_padNat, List.length_append, List.length_replicate]
      omega
  · rw [if_pos (Or.inr hn), toList_padInt_of_nonneg hn, length_padNat (by omega) h]

theorem toDigits_append_padNat (hn : 0 < n) (hm : m < 100) :
    Nat.toDigits 10 n ++ (padNat 2 m).toList = Nat.toDigits 10 (100 * n + m) := by
  have hpad : (padNat 2 m).toList = Nat.toDigits 10 (m / 10) ++ Nat.toDigits 10 (m % 10) := by
    rw [toList_padNat]
    rcases Nat.lt_or_ge m 10 with hlt | hle
    · rw [Nat.div_eq_of_lt hlt, Nat.mod_eq_of_lt hlt, Nat.toDigits_of_lt_base hlt]
      rfl
    · have hdigits := Nat.toDigits_append_toDigits (b := 10) (n := m / 10) (d := m % 10)
        (by decide) (by omega) (by omega)
      rw [Nat.div_add_mod] at hdigits
      rw [hdigits, ← hdigits, Nat.toDigits_of_lt_base (by omega : m / 10 < 10),
        Nat.toDigits_of_lt_base (by omega : m % 10 < 10)]
      rfl
  rw [hpad, ← List.append_assoc, Nat.toDigits_append_toDigits (by decide) hn (by omega),
    Nat.toDigits_append_toDigits (by decide) (by omega) (by omega)]
  congr 1
  omega

/--
Two digits behind a number make a longer number, unless zeros stand before the shorter one.
-/
theorem padNat_eq_append_iff (hwidth : 1 < width) (hm : m < 100) :
    (padNat width k).toList = (padNat width n).toList ++ (padNat 2 m).toList
      ↔ 10 ^ (width - 1) ≤ n ∧ k = 100 * n + m := by
  have hlen : (padNat 2 m).toList.length = 2 := length_padNat (by decide) hm
  have hpow : 10 ^ (width + 1) = 100 * 10 ^ (width - 1) := by
    rw [show width + 1 = width - 1 + 2 by omega, Nat.pow_add, Nat.mul_comm]
  constructor
  · intro h
    have hk : k = 100 * n + m := by
      have hvalue := congrArg (fun cs => Nat.ofDigitChars 10 cs 0) h
      simp only [Nat.ofDigitChars_append, ofDigitChars_padNat] at hvalue
      rw [Nat.ofDigitChars_eq_ofDigitChars_zero, ofDigitChars_padNat, hlen] at hvalue
      exact hvalue
    refine ⟨?_, hk⟩
    -- with a zero before it the shorter number would leave the longer one short of a digit
    apply Nat.le_of_not_lt
    intro hn
    have hshort : (padNat width n).toList.length = width :=
      length_padNat (by omega) (Nat.lt_of_lt_of_le hn (Nat.pow_le_pow_right (by decide) (by omega)))
    have hdigits := (Nat.length_toDigits_le_iff (n := k) (b := 10) (k := width + 1) (by decide)
      (by omega)).2 (by omega)
    have hlong := congrArg List.length h
    rw [List.length_append, hlen, hshort, toList_padNat, List.length_append,
      List.length_replicate] at hlong
    omega
  · rintro ⟨hn, rfl⟩
    have hpos : 0 < n := Nat.lt_of_lt_of_le (Nat.pow_pos (by decide)) hn
    have hdigits {j : Nat} (hj : 10 ^ (width - 1) ≤ j) :
        (padNat width j).toList = Nat.toDigits 10 j := by
      have := mt (Nat.length_toDigits_le_iff (n := j) (b := 10) (k := width - 1) (by decide)
        (by omega)).1 (by omega)
      rw [toList_padNat, show width - (Nat.toDigits 10 j).length = 0 by omega]
      rfl
    rw [hdigits hn, hdigits (by omega), toDigits_append_padNat hpos hm]

theorem padInt_eq_append_iff {n k : Int} (hwidth : 2 < width) (hm : m < 100) :
    padInt width k = padInt width n ++ padNat 2 m
      ↔ (((10 ^ (width - 1) : Nat) : Int) ≤ n ∧ k = 100 * n + m)
        ∨ (n ≤ -((10 ^ (width - 2) : Nat) : Int) ∧ k = 100 * n - m) := by
  have hpos := Nat.pow_pos (n := width - 1) (show 0 < 10 by decide)
  have hpos' := Nat.pow_pos (n := width - 2) (show 0 < 10 by decide)
  rw [← String.toList_inj, String.toList_append]
  -- both texts have a minus sign or none has, and the digits decide the rest
  rcases Int.lt_or_le n 0 with hn | hn <;> rcases Int.lt_or_le k 0 with hk | hk
  · rw [toList_padInt_of_neg hn, toList_padInt_of_neg hk, List.cons_append, List.cons_inj_right,
      padNat_eq_append_iff (by omega) hm, show width - 1 - 1 = width - 2 by omega]
    omega
  · rw [toList_padInt_of_neg hn, toList_padInt_of_nonneg hk, List.cons_append]
    constructor
    · intro h
      exact absurd (h ▸ List.mem_cons_self) minus_not_mem_padNat
    · omega
  · rw [toList_padInt_of_nonneg hn, toList_padInt_of_neg hk]
    constructor
    · intro h
      rcases List.mem_append.1 (h ▸ List.mem_cons_self) with h | h
      · exact absurd h minus_not_mem_padNat
      · exact absurd h minus_not_mem_padNat
    · omega
  · rw [toList_padInt_of_nonneg hn, toList_padInt_of_nonneg hk, padNat_eq_append_iff (by omega) hm]
    omega

theorem digit?_of_isDigit {c : Char} (h : c.isDigit) : digit? c = some (c.toNat - '0'.toNat) := by
  unfold digit?
  rw [if_pos]
  simpa [Char.isDigit, Char.le_def] using h

theorem readDigits_go_eq_ok (hdigits : ∀ c ∈ cs, c.isDigit)
    (hle : Nat.ofDigitChars 10 cs value ≤ limit) :
    readDigits.go limit excess value cs = .ok (Nat.ofDigitChars 10 cs value) := by
  induction cs generalizing value with
  | nil => simp [readDigits.go]
  | cons c cs ih =>
    have hc := digit?_of_isDigit (hdigits c List.mem_cons_self)
    rw [Nat.ofDigitChars_cons, Nat.mul_comm] at hle ⊢
    -- the value only grows with further digits, so it is within the limit already
    have hstep : value * 10 + (c.toNat - '0'.toNat) ≤ limit := by
      rw [Nat.ofDigitChars_eq_ofDigitChars_zero] at hle
      have := Nat.le_mul_of_pos_left (value * 10 + (c.toNat - '0'.toNat))
        (Nat.pow_pos (n := cs.length) (show 0 < 10 by decide))
      omega
    rw [readDigits.go, hc]
    simp only
    rw [if_neg (by omega)]
    apply ih
    · intro d hd
      exact hdigits d (List.mem_cons_of_mem _ hd)
    · exact hle

theorem readDigits_padNat (h : n ≤ limit) :
    readDigits limit excess (padNat width n).toList = .ok n := by
  have hgo : readDigits.go limit excess 0 (padNat width n).toList = .ok n := by
    rw [readDigits_go_eq_ok (fun c => isDigit_of_mem_padNat), ofDigitChars_padNat]
    rwa [ofDigitChars_padNat]
  unfold readDigits
  split
  · next hnil => exact absurd hnil (padNat_ne_empty width n)
  · exact hgo

-- No reader takes the first character of a written number for a sign.
theorem exists_digit_cons (width n : Nat) :
    ∃ c cs, (padNat width n).toList = c :: cs ∧ c ≠ '+' ∧ c ≠ '-' := by
  obtain ⟨c, cs, hcs⟩ := List.exists_cons_of_ne_nil (padNat_ne_empty width n)
  have hc : c.isDigit := isDigit_of_mem_padNat (hcs ▸ List.mem_cons_self)
  refine ⟨c, cs, hcs, ?_, ?_⟩
  · rintro rfl
    exact absurd hc (by decide)
  · rintro rfl
    exact absurd hc (by decide)

theorem readUnsigned_decimal (h : n < 2 ^ bits) : readUnsigned bits (decimal n) = .ok n := by
  have hlist : (decimal n).toList = (padNat 0 n).toList := toList_padInt_of_nonneg (Int.natCast_nonneg n)
  obtain ⟨c, cs, hcs, hplus, -⟩ := exists_digit_cons 0 n
  have hread : readDigits (2 ^ bits - 1) .tooLarge (c :: cs) = .ok n := by
    rw [← hcs]
    exact readDigits_padNat (by omega)
  unfold readUnsigned
  rw [hlist, hcs]
  split
  · next hnil => cases hnil
  · next hcons => exact absurd (List.cons.inj hcons).1 hplus
  · exact hread

theorem readUnsigned_decimal_of_neg {n : Int} (h : n < 0) :
    readUnsigned bits (decimal n) = .error .invalidDigit := by
  unfold readUnsigned
  rw [decimal, toList_padInt_of_neg h]
  rfl

theorem readSigned_decimal {n : Int} (hmin : -2 ^ (bits - 1) ≤ n) (hmax : n ≤ 2 ^ (bits - 1) - 1) :
    readSigned bits (decimal n) = .ok n := by
  have hcast : ((2 ^ (bits - 1) : Nat) : Int) = 2 ^ (bits - 1) := by norm_cast
  unfold readSigned
  rcases Int.lt_or_le n 0 with hn | hn
  · rw [decimal, toList_padInt_of_neg hn]
    simp only
    rw [readDigits_padNat (by omega)]
    apply congrArg Except.ok
    change -(n.natAbs : Int) = n
    omega
  · obtain ⟨c, cs, hcs, hplus, hminus⟩ := exists_digit_cons 0 n.natAbs
    rw [decimal, toList_padInt_of_nonneg hn, hcs]
    split
    · next hnil => cases hnil
    · next hcons => exact absurd (List.cons.inj hcons).1 hminus
    · next hcons => exact absurd (List.cons.inj hcons).1 hplus
    · rw [← hcs, readDigits_padNat (by omega)]
      apply congrArg Except.ok
      rw [Int.ofNat_eq_natCast]
      omega

/--
A text that denotes a number: one digit or more, with a plus sign before them at most. Zeros may
come first.
-/
def Denotes (s : String) (n : Nat) : Prop :=
  ∃ digits : List Char, (s.toList = digits ∨ s.toList = '+' :: digits) ∧ digits ≠ []
    ∧ (∀ c ∈ digits, c.isDigit) ∧ Nat.ofDigitChars 10 digits 0 = n

theorem isDigit_of_digit? {c : Char} {d : Nat} (h : digit? c = some d) :
    c.isDigit ∧ d = c.toNat - '0'.toNat := by
  unfold digit? at h
  split at h
  · next hc =>
    refine ⟨?_, (Option.some.inj h).symm⟩
    simpa [Char.isDigit, Char.le_def] using hc
  · cases h

theorem digits_of_readDigits_go_eq_ok (h : readDigits.go limit excess value cs = .ok n) :
    (∀ c ∈ cs, c.isDigit) ∧ Nat.ofDigitChars 10 cs value = n := by
  induction cs generalizing value with
  | nil =>
    cases h
    exact ⟨List.forall_mem_nil _, rfl⟩
  | cons c cs ih =>
    rw [readDigits.go] at h
    cases hc : digit? c with
    | none =>
      rw [hc] at h
      cases h
    | some d =>
      obtain ⟨hdigit, rfl⟩ := isDigit_of_digit? hc
      rw [hc] at h
      simp only at h
      split at h
      · cases h
      · obtain ⟨hdigits, hvalue⟩ := ih h
        refine ⟨List.forall_mem_cons.2 ⟨hdigit, hdigits⟩, ?_⟩
        rw [Nat.ofDigitChars_cons, Nat.mul_comm]
        exact hvalue

theorem readDigits_eq_ok_iff : readDigits limit excess cs = .ok n
    ↔ cs ≠ [] ∧ (∀ c ∈ cs, c.isDigit) ∧ Nat.ofDigitChars 10 cs 0 = n ∧ n ≤ limit := by
  constructor
  · intro h
    have hle := readDigits_le h
    unfold readDigits at h
    split at h
    · cases h
    · next hcs =>
      obtain ⟨hdigits, hvalue⟩ := digits_of_readDigits_go_eq_ok h
      exact ⟨hcs, hdigits, hvalue, hle⟩
  · rintro ⟨hcs, hdigits, rfl, hle⟩
    unfold readDigits
    split
    · exact absurd rfl hcs
    · exact readDigits_go_eq_ok hdigits hle

/--
The numerals of a number of bits are the texts that denote a number of at most so many bits.
-/
theorem readUnsigned_eq_ok_iff {s : String} :
    readUnsigned bits s = .ok n ↔ Denotes s n ∧ n < 2 ^ bits := by
  have hpos := Nat.two_pow_pos bits
  have hplus : ¬('+').isDigit := by decide
  unfold readUnsigned Denotes
  split
  · next hnil =>
    simp [hnil]
  · next cs hcons =>
    rw [readDigits_eq_ok_iff]
    constructor
    · rintro ⟨hcs, hdigits, hvalue, hle⟩
      exact ⟨⟨cs, Or.inr hcons, hcs, hdigits, hvalue⟩, by omega⟩
    · rintro ⟨⟨digits, htext, hcs, hdigits, hvalue⟩, hlt⟩
      rw [hcons] at htext
      rcases htext with rfl | heq
      · exact absurd (hdigits _ List.mem_cons_self) hplus
      · obtain ⟨-, rfl⟩ := List.cons.inj heq
        exact ⟨hcs, hdigits, hvalue, by omega⟩
  · next hnil hcons =>
    rw [readDigits_eq_ok_iff]
    constructor
    · rintro ⟨hcs, hdigits, hvalue, hle⟩
      exact ⟨⟨_, Or.inl rfl, hcs, hdigits, hvalue⟩, by omega⟩
    · rintro ⟨⟨digits, htext, hcs, hdigits, hvalue⟩, hlt⟩
      rcases htext with rfl | heq
      · exact ⟨hcs, hdigits, hvalue, by omega⟩
      · exact absurd heq (hcons digits)

theorem Denotes.eq {s : String} (hn : Denotes s n) (hm : Denotes s m) : n = m := by
  -- a reader of enough bits reads both
  have hread {k : Nat} (hk : Denotes s k) (hle : k ≤ n + m) :
      readUnsigned (n + m) s = .ok k :=
    readUnsigned_eq_ok_iff.2 ⟨hk, Nat.lt_of_le_of_lt hle Nat.lt_two_pow_self⟩
  have hreads := hread hn (Nat.le_add_right n m)
  rw [hread hm (Nat.le_add_left m n)] at hreads
  exact (Except.ok.inj hreads).symm

end Rollup.Text
