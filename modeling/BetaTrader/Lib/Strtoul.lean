import Mathlib.Algebra.Order.Ring.Nat

/-!
# Conversion of text to integers in C

`std::stoul` and `std::stoull` on a target whose `unsigned long` has 64 bits:
leading white space and one sign are skipped, the conversion stops at the first
character that is not a digit, a minus sign negates modulo `2 ^ 64`.  `std::stoi`
reads the same texts and refuses what 32 bits do not hold.  `std::from_chars` skips
nothing and knows no plus sign.  The operator `>>` of a stream reads like `std::stoul`
what its type holds, and leaves the rest in the stream.
-/

namespace Strtoul

/-- `isspace` in the C locale. -/
def isSpace (c : Char) : Bool := c.toNat = 32 || (9 ≤ c.toNat && c.toNat ≤ 13)

/-- The sign and what follows it. -/
def splitSign : List Char → Bool × List Char
  | '-' :: cs => (true, cs)
  | '+' :: cs => (false, cs)
  | cs => (false, cs)

/-- The value of a string of decimal digits. -/
def value (digits : List Char) : ℕ := digits.foldl (fun n c => 10 * n + (c.toNat - 48)) 0

/-- `none` stands for the exceptions `invalid_argument` and `out_of_range`. -/
def stoul (s : String) : Option ℕ :=
  let (negative, cs) := splitSign (s.toList.dropWhile isSpace)
  let digits := cs.takeWhile Char.isDigit
  if digits = [] ∨ 2 ^ 64 ≤ value digits then none
  else if negative then some ((2 ^ 64 - value digits) % 2 ^ 64)
  else some (value digits)

/-- `none` stands for the exceptions `invalid_argument` and `out_of_range`. -/
def stoi (cs : List Char) : Option ℤ :=
  let (negative, cs) := splitSign (cs.dropWhile isSpace)
  let digits := cs.takeWhile Char.isDigit
  let n : ℤ := if negative then -value digits else value digits
  if digits = [] ∨ n < -2 ^ 31 ∨ 2 ^ 31 ≤ n then none else some n

/-- `std::from_chars` for an `int`; `none` stands for an error code. -/
def fromChars (cs : List Char) : Option ℤ :=
  if cs.head?.all fun c => c = '-' || c.isDigit then stoi cs else none

/-- `>>` of an unsigned type of so many bits; `none` stands for the `failbit`. -/
def extract (bits : ℕ) (cs : List Char) : Option (ℕ × List Char) :=
  let (negative, cs) := splitSign (cs.dropWhile isSpace)
  let digits := cs.takeWhile Char.isDigit
  let rest := cs.dropWhile Char.isDigit
  if digits = [] ∨ 2 ^ bits ≤ value digits then none
  else if negative then some ((2 ^ bits - value digits) % 2 ^ bits, rest)
  else some (value digits, rest)

/-- Digits of less than `2 ^ 64` stand behind white space and one sign. -/
def IsReadable (cs : List Char) : Prop :=
  let digits := (splitSign (cs.dropWhile isSpace)).2.takeWhile Char.isDigit
  digits ≠ [] ∧ value digits < 2 ^ 64

theorem stoul_isSome_iff {cs : List Char} : (stoul (String.ofList cs)).isSome ↔ IsReadable cs := by
  rw [stoul, IsReadable, String.toList_ofList, ← not_le, ← not_or]
  dsimp only
  split_ifs with hrefused
  · exact iff_of_false (by simp) (not_not_intro hrefused)
  · exact iff_of_true rfl hrefused
  · exact iff_of_true rfl hrefused

end Strtoul
