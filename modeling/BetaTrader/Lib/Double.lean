import BetaTrader.Lib.Strtoul
import Mathlib.Algebra.Order.Ring.Rat
import Mathlib.Algebra.Order.Field.Rat

/-!
# Floating point values and their texts

The values of a `double` with the comparisons of IEEE 754, where every ordered
comparison with NaN is false.  A finite value is a rational number and the
results of arithmetic are not rounded.  `stod` is `std::stod`: white space, a
sign, and then a decimal or hexadecimal number, an infinity or NaN.
-/

inductive Double where
  | finite (q : ℚ)
  | posInf
  | negInf
  | nan
  deriving DecidableEq

namespace Double

def ltb : Double → Double → Bool
  | finite x, finite y => x < y
  | finite _, posInf | negInf, finite _ | negInf, posInf => true
  | _, _ => false

def leb : Double → Double → Bool
  | finite x, finite y => x ≤ y
  | finite _, posInf | negInf, finite _ | negInf, posInf => true
  | posInf, posInf | negInf, negInf => true
  | _, _ => false

instance : LT Double := ⟨fun x y => ltb x y = true⟩

instance : LE Double := ⟨fun x y => leb x y = true⟩

instance : DecidableLT Double := fun x y => inferInstanceAs (Decidable (ltb x y = true))

instance : DecidableLE Double := fun x y => inferInstanceAs (Decidable (leb x y = true))

instance : Zero Double := ⟨finite 0⟩

instance : Sub Double where
  sub
    | finite x, finite y => finite (x - y)
    | finite _, posInf | negInf, finite _ | negInf, posInf => negInf
    | finite _, negInf | posInf, finite _ | posInf, negInf => posInf
    | _, _ => nan

instance : Div Double where
  div
    | finite x, finite y =>
        if y ≠ 0 then finite (x / y)
        else if 0 < x then posInf else if x < 0 then negInf else nan
    | finite _, posInf | finite _, negInf => finite 0
    | posInf, finite y => if 0 ≤ y then posInf else negInf
    | negInf, finite y => if 0 ≤ y then negInf else posInf
    | _, _ => nan

/-- `std::abs`. -/
def abs : Double → Double
  | finite x => finite |x|
  | posInf | negInf => posInf
  | nan => nan

/-- `std::isfinite`. -/
def isFinite : Double → Bool
  | finite _ => true
  | _ => false

/-- Without NaN the comparisons are those of a linear order. -/
theorem le_of_not_lt {x y : Double} (hx : x ≠ nan) (hy : y ≠ nan) (h : ¬x < y) : y ≤ x := by
  cases x <;> cases y <;> simp_all [LT.lt, LE.le, ltb, leb]

theorem eq_of_not_lt {x y : Double} (hx : x ≠ nan) (hy : y ≠ nan) (hxy : ¬x < y) (hyx : ¬y < x) :
    x = y := by
  cases x <;> cases y <;> simp_all [LT.lt, ltb]
  exact le_antisymm hyx hxy

theorem not_le_of_lt {x y : Double} (h : x < y) : ¬y ≤ x := by
  cases x <;> cases y <;> simp_all [LT.lt, LE.le, ltb, leb]

theorem lt_trans {x y z : Double} (hxy : x < y) (hyz : y < z) : x < z := by
  cases x with
  | finite x =>
      cases y with
      | finite y =>
          cases z with
          | finite z =>
              have hlt : x < z := (of_decide_eq_true hxy).trans (of_decide_eq_true hyz)
              exact decide_eq_true hlt
          | posInf => rfl
          | negInf => cases hyz
          | nan => cases hyz
      | posInf => cases z <;> cases hyz
      | negInf => cases hxy
      | nan => cases hxy
  | posInf => cases y <;> cases hxy
  | negInf =>
      cases z with
      | finite z => rfl
      | posInf => rfl
      | negInf => cases y <;> cases hyz
      | nan => cases y <;> cases hyz
  | nan => cases y <;> cases hxy

theorem lt_irrefl (x : Double) : ¬x < x := by
  cases x with
  | finite q =>
      intro h
      have hlt : q < q := of_decide_eq_true h
      exact hlt.false
  | posInf => rintro ⟨⟩
  | negInf => rintro ⟨⟩
  | nan => rintro ⟨⟩

theorem not_nan_lt (x : Double) : ¬nan < x := by
  simp [LT.lt, ltb]

theorem not_lt_nan (x : Double) : ¬x < nan := by
  cases x <;> simp [LT.lt, ltb]

theorem not_nan_le (x : Double) : ¬nan ≤ x := by
  simp [LE.le, leb]

theorem not_le_nan (x : Double) : ¬x ≤ nan := by
  cases x <;> simp [LE.le, leb]

/-! ## Texts -/

/-- What a text of digits in some base is worth. -/
def digitsValue (base : ℕ) (digit : Char → ℕ) (digits : List Char) : ℕ :=
  digits.foldl (fun n c => base * n + digit c) 0

/-- A way to write numbers: the digits with their values, the letters that
announce the exponent, and the base of the exponent. -/
structure NumberFormat where
  base : ℕ
  isDigit : Char → Bool
  digit : Char → ℕ
  isMark : Char → Bool
  exponentBase : ℚ

def decimal : NumberFormat where
  base := 10
  isDigit := Char.isDigit
  digit c := c.toNat - 48
  isMark c := c = 'e' || c = 'E'
  exponentBase := 10

def isHexDigit (c : Char) : Bool := c.isDigit || ('a' ≤ c.toLower && c.toLower ≤ 'f')

def hexadecimal : NumberFormat where
  base := 16
  isDigit := isHexDigit
  digit c := if c.isDigit then c.toNat - 48 else c.toLower.toNat - 87
  isMark c := c = 'p' || c = 'P'
  exponentBase := 2

/-- A mark without digits behind it announces nothing. -/
def exponent (format : NumberFormat) : List Char → ℤ
  | [] => 0
  | c :: cs =>
      if format.isMark c then
        let (negative, cs) := Strtoul.splitSign cs
        let e : ℤ := Strtoul.value (cs.takeWhile Char.isDigit)
        if negative then -e else e
      else 0

/-- The number at the beginning of a text, if it has at least one digit. -/
def magnitude (format : NumberFormat) (cs : List Char) : Option ℚ :=
  let whole := cs.takeWhile format.isDigit
  let cs := cs.dropWhile format.isDigit
  let (fraction, cs) := match cs with
    | '.' :: cs => (cs.takeWhile format.isDigit, cs.dropWhile format.isDigit)
    | cs => ([], cs)
  if whole ++ fraction = [] then none
  else some (digitsValue format.base format.digit (whole ++ fraction) /
    format.base ^ fraction.length * format.exponentBase ^ exponent format cs)

/-- The result is out of range when it rounds to infinity, or when it is below
the normal values and has to be rounded. -/
def inRange (x : ℚ) : Bool :=
  x < 2 ^ 1024 - 2 ^ 970 &&
    (x = 0 || 1 / 2 ^ 1022 - 1 / 2 ^ 1076 ≤ x || (x * 2 ^ 1074).den = 1)

def startsWith (word cs : List Char) : Bool := word.isPrefixOf (cs.map Char.toLower)

/-- `none` stands for the exceptions `invalid_argument` and `out_of_range`. -/
def stod (cs : List Char) : Option Double :=
  let (negative, cs) := Strtoul.splitSign (cs.dropWhile Strtoul.isSpace)
  if startsWith ['i', 'n', 'f'] cs then some (if negative then negInf else posInf)
  else if startsWith ['n', 'a', 'n'] cs then some nan
  else
    let x := if startsWith ['0', 'x'] cs then
        (magnitude hexadecimal (cs.drop 2)).orElse fun _ => magnitude decimal cs
      else magnitude decimal cs
    x.bind fun x =>
      if inRange x then some (finite (if negative then -x else x)) else none

end Double
