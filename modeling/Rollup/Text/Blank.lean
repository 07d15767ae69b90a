/-!
This module contains the blank characters and the reading of words whose case and surrounding blanks
do not matter.
-/

namespace Rollup.Text

def isBlank (c : Char) : Bool :=
  let n := c.toNat
  (0x9 ≤ n && n ≤ 0xD) || n == 0x20 || n == 0x85 || n == 0xA0 || n == 0x1680
    || (0x2000 ≤ n && n ≤ 0x200A) || n == 0x2028 || n == 0x2029 || n == 0x202F || n == 0x205F
    || n == 0x3000

theorem isBlank_of_isWhitespace {c : Char} (h : c.isWhitespace = true) : isBlank c = true := by
  unfold Char.isWhitespace at h
  simp only [Bool.or_eq_true, decide_eq_true_eq] at h
  rcases h with ((rfl | rfl) | rfl) | rfl <;> decide

def trim (s : String) : String :=
  String.ofList (((s.toList.dropWhile isBlank).reverse.dropWhile isBlank).reverse)

/--
The word that a text names, blanks and case aside. Only ASCII letters change their case: no other
character becomes one of `a` to `j` or `l` to `z` by itself, so it is exact for words without `k`.
-/
def word (s : String) : String :=
  (trim s).map Char.toLower

end Rollup.Text
