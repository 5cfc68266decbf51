import BetaTrader.Lib.Decimal
import Mathlib.Data.Int.Log
import Mathlib.Data.List.DropRight
import Mathlib.Data.Rat.Floor

/-!
# Numbers with a number of digits

What a stream writes of a `double` when nothing else is asked of it: at most so many
digits, without trailing zeros, and a power of ten when there would be many zeros.
-/

namespace Decimal

/-- The first digits of a positive number, and the power of ten of the first one. -/
def significand (digits : ℕ) (x : ℚ) : ℕ × ℤ :=
  let e := Int.log 10 x
  let m := (roundHalfEven (x * 10 ^ ((digits : ℤ) - 1 - e))).natAbs
  -- rounding may lead to one digit more
  if m = 10 ^ digits then (10 ^ (digits - 1), e + 1) else (m, e)

/-- A fraction is written without trailing zeros. -/
def point (whole fraction : List Char) : List Char :=
  let fraction := fraction.rdropWhile (· = '0')
  if fraction = [] then whole else whole ++ '.' :: fraction

def positional (text : List Char) (e : ℤ) : List Char :=
  if 0 ≤ e then point (text.take (e.toNat + 1)) (text.drop (e.toNat + 1))
  else point ['0'] (List.replicate (-e - 1).toNat '0' ++ text)

def scientific (text : List Char) (e : ℤ) : List Char :=
  point (text.take 1) (text.drop 1) ++
    'e' :: (if e < 0 then '-' else '+') :: pad 2 (natText e.natAbs)

def positiveText (digits : ℕ) (x : ℚ) : List Char :=
  let (m, e) := significand digits x
  if -4 ≤ e ∧ e < digits then positional (natText m) e else scientific (natText m) e

/-- `std::setprecision(digits)`. -/
def generalText (digits : ℕ) : Double → List Char
  | .finite x =>
      if x = 0 then ['0']
      else if x < 0 then '-' :: positiveText digits (-x)
      else positiveText digits x
  | .posInf => ['i', 'n', 'f']
  | .negInf => ['-', 'i', 'n', 'f']
  | .nan => ['n', 'a', 'n']

example : generalText 6 (.finite (123456789 / 10 ^ 8)) = "1.23457".toList := by decide +kernel

/-! ## The characters -/

/-- The characters of a written number. -/
def Numeric (c : Char) : Prop := c.isDigit = true ∨ c ∈ ['.', '-', '+', 'e', 'i', 'n', 'f', 'a']

variable {c : Char} {text whole fraction : List Char}

theorem numeric_of_mem_natText {n : ℕ} (hc : c ∈ natText n) : Numeric c :=
  Or.inl (isDigit_of_mem_natText hc)

theorem numeric_of_mem_point (hwhole : ∀ c ∈ whole, Numeric c)
    (hfraction : ∀ c ∈ fraction, Numeric c) (hc : c ∈ point whole fraction) : Numeric c := by
  unfold point at hc
  dsimp only at hc
  split_ifs at hc
  · exact hwhole c hc
  · rcases List.mem_append.mp hc with hc | hc
    · exact hwhole c hc
    · rcases List.mem_cons.mp hc with rfl | hc
      · exact Or.inr (by decide)
      · exact hfraction c ((List.rdropWhile_prefix _ _).subset hc)

theorem numeric_of_mem_positional {e : ℤ} (htext : ∀ c ∈ text, Numeric c)
    (hc : c ∈ positional text e) : Numeric c := by
  unfold positional at hc
  split_ifs at hc
  · apply numeric_of_mem_point _ _ hc
    · exact fun c hc => htext c (List.mem_of_mem_take hc)
    · exact fun c hc => htext c (List.mem_of_mem_drop hc)
  · apply numeric_of_mem_point _ _ hc
    · exact fun c hc => Or.inl (List.mem_singleton.mp hc ▸ by decide)
    · intro c hc
      rcases List.mem_append.mp hc with hc | hc
      · exact Or.inl (List.eq_of_mem_replicate hc ▸ by decide)
      · exact htext c hc

theorem numeric_of_mem_scientific {e : ℤ} (htext : ∀ c ∈ text, Numeric c)
    (hc : c ∈ scientific text e) : Numeric c := by
  rcases List.mem_append.mp hc with hc | hc
  · apply numeric_of_mem_point _ _ hc
    · exact fun c hc => htext c (List.mem_of_mem_take hc)
    · exact fun c hc => htext c (List.mem_of_mem_drop hc)
  · rcases List.mem_cons.mp hc with rfl | hc
    · exact Or.inr (by decide)
    · rcases List.mem_cons.mp hc with rfl | hc
      · split_ifs <;> exact Or.inr (by decide)
      · exact Or.inl (isDigit_of_mem_pad hc)

theorem numeric_of_mem_positiveText {digits : ℕ} {x : ℚ} (hc : c ∈ positiveText digits x) :
    Numeric c := by
  simp only [positiveText] at hc
  split_ifs at hc
  · exact numeric_of_mem_positional (fun _ => numeric_of_mem_natText) hc
  · exact numeric_of_mem_scientific (fun _ => numeric_of_mem_natText) hc

theorem numeric_of_mem_generalText {digits : ℕ} {x : Double} (hc : c ∈ generalText digits x) :
    Numeric c := by
  have hnames : ∀ name ∈ [['i', 'n', 'f'], ['-', 'i', 'n', 'f'], ['n', 'a', 'n']],
      name ⊆ ['.', '-', '+', 'e', 'i', 'n', 'f', 'a'] := by decide
  cases x with
  | finite x =>
      simp only [generalText] at hc
      split_ifs at hc
      · exact Or.inl (List.mem_singleton.mp hc ▸ by decide)
      · rcases List.mem_cons.mp hc with rfl | hc
        · exact Or.inr (by decide)
        · exact numeric_of_mem_positiveText hc
      · exact numeric_of_mem_positiveText hc
  | posInf => exact Or.inr (hnames ['i', 'n', 'f'] (by decide) hc)
  | negInf => exact Or.inr (hnames ['-', 'i', 'n', 'f'] (by decide) hc)
  | nan => exact Or.inr (hnames ['n', 'a', 'n'] (by decide) hc)

end Decimal
