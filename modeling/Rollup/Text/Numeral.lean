/-!
This module contains decimal numerals: writing an integer with a least width, and reading the text
of an integer of a fixed number of bits. A numeral is read from left to right, and the first
character that cannot go on decides the error.
-/

namespace Rollup.Text

-- powers mean the same whatever else is imported
attribute [local instance (high)] instPowNat

def padNat (width : Nat) (n : Nat) : String :=
  let digits := Nat.toDigits 10 n
  String.ofList (List.replicate (width - digits.length) '0' ++ digits)

/--
The decimal digits of `n`, with zeros before them up to `width` characters. A minus sign comes first
and counts as one of them.
-/
def padInt (width : Nat) (n : Int) : String :=
  if n < 0 then "-" ++ padNat (width - 1) n.natAbs else padNat width n.natAbs

def decimal (n : Int) : String :=
  padInt 0 n

inductive NumeralError where
  | empty
  | invalidDigit
  | tooLarge
  | tooSmall
deriving DecidableEq

namespace NumeralError

def message : NumeralError → String
  | empty => "cannot parse integer from empty string"
  | invalidDigit => "invalid digit found in string"
  | tooLarge => "number too large to fit in target type"
  | tooSmall => "number too small to fit in target type"

end NumeralError

def digit? (c : Char) : Option Nat :=
  if '0' ≤ c ∧ c ≤ '9' then some (c.toNat - '0'.toNat) else none

/--
Read one digit or more as a number of at most `limit`. The error `excess` tells a larger one.
-/
def readDigits (limit : Nat) (excess : NumeralError) (cs : List Char) : Except NumeralError Nat :=
  match cs with
  | [] => .error .invalidDigit
  | _ => go 0 cs
where
  go (value : Nat) : List Char → Except NumeralError Nat
    | [] => .ok value
    | c :: cs =>
      match digit? c with
      | none => .error .invalidDigit
      | some d => if limit < value * 10 + d then .error excess else go (value * 10 + d) cs

/--
Read a numeral of `bits` bits without a sign bit. A plus sign may come first, a minus sign may not.
-/
def readUnsigned (bits : Nat) (s : String) : Except NumeralError Nat :=
  match s.toList with
  | [] => .error .empty
  | '+' :: cs => readDigits (2 ^ bits - 1) .tooLarge cs
  | cs => readDigits (2 ^ bits - 1) .tooLarge cs

/--
Read a numeral of `bits` bits, one of them the sign bit. A plus or a minus sign may come first.
-/
def readSigned (bits : Nat) (s : String) : Except NumeralError Int :=
  match s.toList with
  | [] => .error .empty
  | '-' :: cs => (readDigits (2 ^ (bits - 1)) .tooSmall cs).map fun (n : Nat) => -(n : Int)
  | '+' :: cs => (readDigits (2 ^ (bits - 1) - 1) .tooLarge cs).map Int.ofNat
  | cs => (readDigits (2 ^ (bits - 1) - 1) .tooLarge cs).map Int.ofNat

theorem map_eq_ok {ε α β : Type} {f : α → β} {x : Except ε α} {b : β} (h : x.map f = .ok b) :
    ∃ a, x = .ok a ∧ f a = b := by
  cases x with
  | error e => cases h
  | ok a =>
    cases h
    exact ⟨a, rfl, rfl⟩

theorem readDigits.go_le {limit : Nat} {excess : NumeralError} {value n : Nat} {cs : List Char}
    (hv : value ≤ limit) (h : readDigits.go limit excess value cs = .ok n) : n ≤ limit := by
  induction cs generalizing value with
  | nil =>
    cases h
    exact hv
  | cons c cs ih =>
    rw [readDigits.go] at h
    split at h
    · cases h
    · split at h
      · cases h
      · exact ih (by omega) h

theorem readDigits_le {limit n : Nat} {excess : NumeralError} {cs : List Char}
    (h : readDigits limit excess cs = .ok n) : n ≤ limit := by
  unfold readDigits at h
  split at h
  · cases h
  · exact readDigits.go_le (Nat.zero_le limit) h

theorem readUnsigned_lt {bits n : Nat} {s : String} (h : readUnsigned bits s = .ok n) :
    n < 2 ^ bits := by
  have := Nat.two_pow_pos bits
  unfold readUnsigned at h
  split at h
  · cases h
  · have := readDigits_le h
    omega
  · have := readDigits_le h
    omega

theorem readSigned_mem {bits : Nat} {n : Int} {s : String} (h : readSigned bits s = .ok n) :
    -2 ^ (bits - 1) ≤ n ∧ n ≤ 2 ^ (bits - 1) - 1 := by
  have hpos : (1 : Int) ≤ 2 ^ (bits - 1) := Int.pow_pos (by decide)
  have hcast : ((2 ^ (bits - 1) : Nat) : Int) = 2 ^ (bits - 1) := by norm_cast
  unfold readSigned at h
  split at h
  · cases h
  · obtain ⟨m, hm, rfl⟩ := map_eq_ok h
    have := readDigits_le hm
    omega
  · obtain ⟨m, hm, rfl⟩ := map_eq_ok h
    have := readDigits_le hm
    simp only [Int.ofNat_eq_natCast]
    omega
  · obtain ⟨m, hm, rfl⟩ := map_eq_ok h
    have := readDigits_le hm
    simp only [Int.ofNat_eq_natCast]
    omega

end Rollup.Text
