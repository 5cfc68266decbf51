import BetaTrader.Lib.Double
import Mathlib.Data.List.TakeWhile
import Mathlib.Tactic.Positivity

/-!
# Numbers as decimal text

What `std::to_string` and the stream operators write, and that the conversions
of `Strtoul` and `Double` read it back.
-/

namespace Decimal

def natText (n : ℕ) : List Char := Nat.toDigits 10 n

def intText (n : ℤ) : List Char :=
  if n < 0 then '-' :: natText n.natAbs else natText n.natAbs

/-- `std::setfill('0') << std::setw(width)`. -/
def pad (width : ℕ) (s : List Char) : List Char := List.replicate (width - s.length) '0' ++ s

/-- The nearest integer, the even one of two. -/
def roundHalfEven (x : ℚ) : ℤ :=
  let n := x.floor
  if x - n < 1 / 2 ∨ (x - n = 1 / 2 ∧ n % 2 = 0) then n else n + 1

/-- `std::fixed << std::setprecision(digits)`. -/
def fixedText (digits : ℕ) : Double → List Char
  | .finite x =>
      let n := (roundHalfEven (|x| * 10 ^ digits)).natAbs
      let text := natText (n / 10 ^ digits) ++ '.' :: pad digits (natText (n % 10 ^ digits))
      if x < 0 then '-' :: text else text
  | .posInf => ['i', 'n', 'f']
  | .negInf => ['-', 'i', 'n', 'f']
  | .nan => ['n', 'a', 'n']

section Digits

variable {n : ℕ} {c : Char}

theorem isDigit_of_mem_natText (hc : c ∈ natText n) : c.isDigit = true :=
  Nat.isDigit_of_mem_toDigits (by decide) (by decide) hc

theorem intText_natCast (n : ℕ) : intText n = natText n := by
  rw [intText, if_neg (by omega), Int.natAbs_natCast]

theorem natText_ne_nil : natText n ≠ [] := Nat.toDigits_ne_nil

theorem isDigit_of_mem_pad {width : ℕ} (hc : c ∈ pad width (natText n)) : c.isDigit = true := by
  rcases List.mem_append.mp hc with hc | hc
  · rw [List.eq_of_mem_replicate hc]
    decide
  · exact isDigit_of_mem_natText hc

theorem value_eq_ofDigitChars (digits : List Char) :
    Strtoul.value digits = Nat.ofDigitChars 10 digits 0 :=
  (Nat.ofDigitChars_eq_foldl).symm

theorem value_natText : Strtoul.value (natText n) = n := by
  rw [value_eq_ofDigitChars, natText, Nat.ofDigitChars_ten_toDigits]

theorem value_append (digits digits' : List Char) : Strtoul.value (digits ++ digits') =
    10 ^ digits'.length * Strtoul.value digits + Strtoul.value digits' := by
  simp only [value_eq_ofDigitChars]
  rw [Nat.ofDigitChars_append, Nat.ofDigitChars_eq_ofDigitChars_zero]

theorem value_lt_pow_length {digits : List Char} (h : ∀ c ∈ digits, c.isDigit = true) :
    Strtoul.value digits < 10 ^ digits.length := by
  induction digits with
  | nil => decide
  | cons c digits ih =>
      have hdigits := ih fun d hd => h d (List.mem_cons_of_mem c hd)
      have hc : Strtoul.value [c] ≤ 9 := by
        have hdigit := h c List.mem_cons_self
        simp only [Char.isDigit, Bool.and_eq_true, decide_eq_true_eq] at hdigit
        have hle : c.toNat ≤ 57 := hdigit.2
        simp only [Strtoul.value, List.foldl_cons, List.foldl_nil]
        omega
      have happend : Strtoul.value (c :: digits) =
          10 ^ digits.length * Strtoul.value [c] + Strtoul.value digits := value_append [c] digits
      rw [happend, List.length_cons, pow_succ]
      have hmul := Nat.mul_le_mul_left (10 ^ digits.length) hc
      omega

/-- The first digits are the number without its last ones. -/
theorem value_take_natText (n k : ℕ) : Strtoul.value ((natText n).take k) =
    n / 10 ^ ((natText n).length - k) := by
  have hdrop : ∀ c ∈ (natText n).drop k, c.isDigit = true := fun c hc =>
    isDigit_of_mem_natText (List.mem_of_mem_drop hc)
  have hsplit := value_append ((natText n).take k) ((natText n).drop k)
  rw [List.take_append_drop, value_natText, List.length_drop] at hsplit
  have hlt := value_lt_pow_length hdrop
  rw [List.length_drop] at hlt
  have hdiv : (10 ^ ((natText n).length - k) * Strtoul.value ((natText n).take k) +
      Strtoul.value ((natText n).drop k)) / 10 ^ ((natText n).length - k) =
        Strtoul.value ((natText n).take k) := by
    rw [Nat.mul_add_div (by positivity), Nat.div_eq_of_lt hlt, Nat.add_zero]
  rw [← hsplit] at hdiv
  exact hdiv.symm

theorem length_pad {width : ℕ} {s : List Char} (h : s.length ≤ width) :
    (pad width s).length = width := by
  rw [pad, List.length_append, List.length_replicate]
  omega

theorem value_pad {width : ℕ} {s : List Char} : Strtoul.value (pad width s) = Strtoul.value s := by
  rw [value_eq_ofDigitChars, value_eq_ofDigitChars, pad, Nat.ofDigitChars_append,
    Nat.ofDigitChars_replicate_zero, Nat.mul_zero]

/-- A digit is neither white space nor a sign. -/
theorem splitSign_of_isDigit {cs : List Char} (hc : c.isDigit = true) :
    Strtoul.splitSign ((c :: cs).dropWhile Strtoul.isSpace) = (false, c :: cs) := by
  have hspace : Strtoul.isSpace c = false := by
    simp only [Char.isDigit, Bool.and_eq_true, decide_eq_true_eq, Strtoul.isSpace] at hc ⊢
    have h48 : 48 ≤ c.toNat := hc.1
    simp
    omega
  rw [List.dropWhile_cons_of_neg (by simp [hspace])]
  have hminus : c ≠ '-' := by
    rintro rfl
    exact absurd hc (by decide)
  have hplus : c ≠ '+' := by
    rintro rfl
    exact absurd hc (by decide)
  unfold Strtoul.splitSign
  split
  · next heq => exact absurd (List.cons.inj heq).1 hminus
  · next heq => exact absurd (List.cons.inj heq).1 hplus
  · rfl

end Digits

/-! ## Reading back -/

section Read

variable {digits : List Char}

theorem takeWhile_digits (h : ∀ c ∈ digits, c.isDigit = true) (rest : List Char)
    (hrest : ∀ c ∈ rest.head?, c.isDigit = false) :
    (digits ++ rest).takeWhile Char.isDigit = digits := by
  rw [List.takeWhile_append_of_pos h]
  cases rest with
  | nil => simp
  | cons c rest => simp [List.takeWhile_cons_of_neg, hrest c (by simp)]

theorem dropWhile_digits (h : ∀ c ∈ digits, c.isDigit = true) (rest : List Char)
    (hrest : ∀ c ∈ rest.head?, c.isDigit = false) :
    (digits ++ rest).dropWhile Char.isDigit = rest := by
  rw [List.dropWhile_append_of_pos h]
  cases rest with
  | nil => simp
  | cons c rest => simp [List.dropWhile_cons_of_neg, hrest c (by simp)]

theorem splitSign_digits (h : ∀ c ∈ digits, c.isDigit = true) (hne : digits ≠ [])
    (rest : List Char) :
    Strtoul.splitSign ((digits ++ rest).dropWhile Strtoul.isSpace) = (false, digits ++ rest) := by
  obtain ⟨c, cs, rfl⟩ := List.exists_cons_of_ne_nil hne
  rw [List.cons_append, splitSign_of_isDigit (h c (by simp))]

theorem stoul_digits (h : ∀ c ∈ digits, c.isDigit = true) (hne : digits ≠ [])
    (hlt : Strtoul.value digits < 2 ^ 64) :
    Strtoul.stoul (String.ofList digits) = some (Strtoul.value digits) := by
  have hsign := splitSign_digits h hne []
  have htake := takeWhile_digits h [] (by simp)
  rw [List.append_nil] at hsign htake
  simp only [Strtoul.stoul, String.toList_ofList, hsign, htake]
  rw [if_neg (by simp only [hne, false_or]; omega)]
  simp

theorem stoi_digits_append (h : ∀ c ∈ digits, c.isDigit = true) (hne : digits ≠ [])
    (hlt : Strtoul.value digits < 2 ^ 31) (rest : List Char)
    (hrest : ∀ c ∈ rest.head?, c.isDigit = false) :
    Strtoul.stoi (digits ++ rest) = some (Strtoul.value digits : ℤ) := by
  simp only [Strtoul.stoi, splitSign_digits h hne rest, takeWhile_digits h rest hrest, hne,
    false_or, Bool.false_eq_true, if_false]
  rw [if_neg (by omega)]

theorem stoi_digits (h : ∀ c ∈ digits, c.isDigit = true) (hne : digits ≠ [])
    (hlt : Strtoul.value digits < 2 ^ 31) :
    Strtoul.stoi digits = some (Strtoul.value digits : ℤ) := by
  simpa using stoi_digits_append h hne hlt [] (by simp)

theorem extract_digits {bits : ℕ} (h : ∀ c ∈ digits, c.isDigit = true) (hne : digits ≠ [])
    (hlt : Strtoul.value digits < 2 ^ bits) (rest : List Char)
    (hrest : ∀ c ∈ rest.head?, c.isDigit = false) :
    Strtoul.extract bits (digits ++ rest) = some (Strtoul.value digits, rest) := by
  have hfits : ¬(digits = [] ∨ 2 ^ bits ≤ Strtoul.value digits) := by
    rw [not_or, not_le]
    exact ⟨hne, hlt⟩
  simp only [Strtoul.extract, splitSign_digits h hne rest, takeWhile_digits h rest hrest,
    dropWhile_digits h rest hrest, if_neg hfits, Bool.false_eq_true, if_false]

theorem extract_overflow {bits : ℕ} (h : ∀ c ∈ digits, c.isDigit = true) (hne : digits ≠ [])
    (hlt : 2 ^ bits ≤ Strtoul.value digits) (rest : List Char)
    (hrest : ∀ c ∈ rest.head?, c.isDigit = false) :
    Strtoul.extract bits (digits ++ rest) = none := by
  simp only [Strtoul.extract, splitSign_digits h hne rest, takeWhile_digits h rest hrest,
    if_pos (Or.inr hlt)]

/-- White space alone is no number. -/
theorem extract_blanks {bits : ℕ} {blanks : List Char}
    (h : ∀ c ∈ blanks, Strtoul.isSpace c = true) : Strtoul.extract bits blanks = none := by
  have hnil : blanks.dropWhile Strtoul.isSpace = [] := List.dropWhile_eq_nil_iff.mpr h
  simp [Strtoul.extract, hnil, Strtoul.splitSign]

theorem stoul_natText {n : ℕ} (h : n < 2 ^ 64) :
    Strtoul.stoul (String.ofList (natText n)) = some n := by
  rw [stoul_digits (fun _ => isDigit_of_mem_natText) natText_ne_nil (by rwa [value_natText]),
    value_natText]

theorem stoi_natText {n : ℕ} (h : n < 2 ^ 31) : Strtoul.stoi (natText n) = some (n : ℤ) := by
  rw [stoi_digits (fun _ => isDigit_of_mem_natText) natText_ne_nil (by rwa [value_natText]),
    value_natText]

/-- The decimals that are written are those of the number. -/
theorem roundHalfEven_natCast (n : ℕ) : roundHalfEven n = n := by
  have hfloor : (n : ℚ).floor = n := by exact_mod_cast Rat.floor_intCast n
  simp [roundHalfEven, hfloor]

theorem fixedText_natCast_div (digits n : ℕ) :
    fixedText digits (.finite (n / 10 ^ digits)) =
      natText (n / 10 ^ digits) ++ '.' :: pad digits (natText (n % 10 ^ digits)) := by
  have hnonneg : (0 : ℚ) ≤ n / 10 ^ digits := by positivity
  have hscaled : |(n : ℚ) / 10 ^ digits| * 10 ^ digits = n := by
    rw [abs_of_nonneg hnonneg, div_mul_cancel₀]
    positivity
  rw [fixedText, hscaled, roundHalfEven_natCast, Int.natAbs_natCast, if_neg hnonneg.not_gt]

/-- The value of the digits before and behind the point. -/
theorem magnitude_digits {whole fraction : List Char} (hwhole : ∀ c ∈ whole, c.isDigit = true)
    (hne : whole ≠ []) (hfraction : ∀ c ∈ fraction, c.isDigit = true) :
    Double.magnitude Double.decimal (whole ++ '.' :: fraction) =
      some ((Strtoul.value (whole ++ fraction) : ℚ) / 10 ^ fraction.length) := by
  have htake := takeWhile_digits hwhole ('.' :: fraction) (by simp)
  have hdrop := dropWhile_digits hwhole ('.' :: fraction) (by simp)
  have htake' := takeWhile_digits hfraction [] (by simp)
  have hdrop' := dropWhile_digits hfraction [] (by simp)
  rw [List.append_nil] at htake' hdrop'
  have hvalue (digits : List Char) :
      Double.digitsValue Double.decimal.base Double.decimal.digit digits =
        Strtoul.value digits := rfl
  have hdigit : Double.decimal.isDigit = Char.isDigit := rfl
  simp only [Double.magnitude, hdigit, htake, hdrop, htake', hdrop', hvalue, Double.exponent]
  rw [if_neg (by simp [hne])]
  simp [Double.decimal]

theorem magnitude_fixedText {digits : ℕ} (hdigits : 0 < digits) (n : ℕ) :
    Double.magnitude Double.decimal (fixedText digits (.finite (n / 10 ^ digits))) =
      some ((n : ℚ) / 10 ^ digits) := by
  have hlength : (natText (n % 10 ^ digits)).length ≤ digits :=
    (Nat.length_toDigits_le_iff (by decide) hdigits).mpr (Nat.mod_lt n (by positivity))
  rw [fixedText_natCast_div, magnitude_digits (fun _ => isDigit_of_mem_natText) natText_ne_nil
    (fun _ => isDigit_of_mem_pad), value_append, value_natText, value_pad, value_natText,
    length_pad hlength, Nat.div_add_mod]

theorem toLower_of_isDigit {c : Char} (h : c.isDigit = true) : c.toLower = c := by
  simp only [Char.isDigit, Bool.and_eq_true, decide_eq_true_eq] at h
  have h57 : c.toNat ≤ 57 := h.2
  refine dif_neg fun hupper => ?_
  have h65 : 65 ≤ c.toNat := hupper.1
  omega

/-- A text that begins with a digit is neither an infinity nor NaN. -/
theorem startsWith_of_isDigit {c d : Char} {word cs : List Char} (hd : d.isDigit = true)
    (hc : c.isDigit = false) : Double.startsWith (c :: word) (d :: cs) = false := by
  have hne : c ≠ d := by
    rintro rfl
    simp [hd] at hc
  simp [Double.startsWith, toLower_of_isDigit hd, List.isPrefixOf, hne]

/-- No number with a point begins like a hexadecimal one. -/
theorem not_startsWith_hexadecimal {whole : List Char}
    (hwhole : ∀ c ∈ whole, c.isDigit = true) (hne : whole ≠ []) (rest : List Char) :
    Double.startsWith ['0', 'x'] (whole ++ '.' :: rest) = false := by
  obtain ⟨c, cs, rfl⟩ := List.exists_cons_of_ne_nil hne
  cases cs with
  | nil => simp [Double.startsWith, List.isPrefixOf]
  | cons d cs =>
      have hd : d.isDigit = true := hwhole d (by simp)
      have hx : 'x' ≠ d := by
        rintro rfl
        exact absurd hd (by decide)
      simp [Double.startsWith, List.isPrefixOf, toLower_of_isDigit hd, hx]

/-- What has been written with a point is read back, as far as it is in range. -/
theorem stod_fixedText {digits n : ℕ} (hdigits : 0 < digits)
    (h : Double.inRange ((n : ℚ) / 10 ^ digits) = true) :
    Double.stod (fixedText digits (.finite (n / 10 ^ digits))) =
      some (.finite (n / 10 ^ digits)) := by
  have hmagnitude := magnitude_fixedText hdigits n
  rw [fixedText_natCast_div] at hmagnitude ⊢
  have hne : natText (n / 10 ^ digits) ≠ [] := natText_ne_nil
  have hwhole : ∀ c ∈ natText (n / 10 ^ digits), c.isDigit = true :=
    fun _ => isDigit_of_mem_natText
  have hsign := splitSign_digits hwhole hne ('.' :: pad digits (natText (n % 10 ^ digits)))
  have hhex := not_startsWith_hexadecimal hwhole hne (pad digits (natText (n % 10 ^ digits)))
  have hword {c : Char} {word : List Char} (hc : c.isDigit = false) :
      Double.startsWith (c :: word) (natText (n / 10 ^ digits) ++
        '.' :: pad digits (natText (n % 10 ^ digits))) = false := by
    obtain ⟨d, ds, heq⟩ := List.exists_cons_of_ne_nil hne
    rw [heq, List.cons_append]
    exact startsWith_of_isDigit (hwhole d (by simp [heq])) hc
  simp only [Double.stod, hsign, hword (show ('i' : Char).isDigit = false from rfl),
    hword (show ('n' : Char).isDigit = false from rfl), hhex, hmagnitude, Bool.false_eq_true,
    if_false, Option.bind_some, h, if_true]

/-- A sign in front of digits is read with them. -/
theorem stod_neg {cs : List Char} {x : ℚ} (hdigit : ∀ c ∈ cs.head?, c.isDigit = true)
    (hne : cs ≠ []) (h : Double.stod cs = some (.finite x)) :
    Double.stod ('-' :: cs) = some (.finite (-x)) := by
  obtain ⟨c, cs, rfl⟩ := List.exists_cons_of_ne_nil hne
  have hc : c.isDigit = true := hdigit c (by simp)
  have hsign : Strtoul.splitSign ((c :: cs).dropWhile Strtoul.isSpace) = (false, c :: cs) :=
    splitSign_of_isDigit hc
  have hminus : Strtoul.splitSign (('-' :: c :: cs).dropWhile Strtoul.isSpace) =
      (true, c :: cs) := rfl
  have hword {d : Char} {word : List Char} (hd : d.isDigit = false) :
      Double.startsWith (d :: word) (c :: cs) = false := startsWith_of_isDigit hc hd
  simp only [Double.stod, hsign, hminus, hword (show ('i' : Char).isDigit = false from rfl),
    hword (show ('n' : Char).isDigit = false from rfl), Bool.false_eq_true, if_false, if_true]
    at h ⊢
  obtain ⟨y, hy, hrange⟩ := Option.bind_eq_some_iff.mp h
  split_ifs at hrange with hin
  obtain rfl : y = x := Double.finite.inj (Option.some.inj hrange)
  rw [hy, Option.bind_some, if_pos hin]

theorem fixedText_neg {digits : ℕ} {x : ℚ} (h : x < 0) :
    fixedText digits (.finite x) = '-' :: fixedText digits (.finite (-x)) := by
  have hpos : ¬-x < 0 := not_lt.mpr (neg_nonneg.mpr h.le)
  simp only [fixedText, abs_neg, if_pos h, if_neg hpos]

/-- Multiples of the last decimal are read back with their sign. -/
theorem stod_fixedText_int {digits : ℕ} {k : ℤ} (hdigits : 0 < digits)
    (h : Double.inRange (|(k : ℚ)| / 10 ^ digits) = true) :
    Double.stod (fixedText digits (.finite (k / 10 ^ digits))) =
      some (.finite (k / 10 ^ digits)) := by
  rcases le_or_gt 0 k with hnonneg | hneg
  · lift k to ℕ using hnonneg
    rw [Int.cast_natCast] at h ⊢
    exact stod_fixedText hdigits (by rwa [Nat.abs_cast] at h)
  · obtain ⟨n, rfl⟩ : ∃ n : ℕ, k = -(n : ℤ) := ⟨k.natAbs, by omega⟩
    have hlt : ((-(n : ℤ) : ℤ) : ℚ) / 10 ^ digits < 0 :=
      div_neg_of_neg_of_pos (by exact_mod_cast hneg) (by positivity)
    have heq : -(((-(n : ℤ) : ℤ) : ℚ) / 10 ^ digits) = (n : ℚ) / 10 ^ digits := by
      rw [Int.cast_neg, Int.cast_natCast, neg_div, neg_neg]
    have hback := stod_fixedText hdigits (n := n) (by
      simpa [abs_of_nonneg] using h)
    rw [fixedText_neg hlt, heq, stod_neg _ _ hback, ← heq, neg_neg]
    · rw [fixedText_natCast_div]
      intro c hc
      obtain ⟨d, ds, hds⟩ := List.exists_cons_of_ne_nil (natText_ne_nil (n := n / 10 ^ digits))
      rw [hds, List.cons_append, List.head?_cons, Option.mem_def, Option.some.injEq] at hc
      exact isDigit_of_mem_natText (n := n / 10 ^ digits) (by simp [hds, hc])
    · rw [fixedText_natCast_div]
      simp

/-- A decimal that a double holds is in range. -/
theorem inRange_decimal {n : ℕ} (h : (n : ℚ) / 10 ^ 4 < 2 ^ 1024 - 2 ^ 970) :
    Double.inRange ((n : ℚ) / 10 ^ 4) = true := by
  have hsmall : n = 0 ∨ (1 : ℚ) / 2 ^ 1022 - 1 / 2 ^ 1076 ≤ (n : ℚ) / 10 ^ 4 := by
    rcases Nat.eq_zero_or_pos n with hzero | hpos
    · exact Or.inl hzero
    · refine Or.inr ?_
      have hone : (1 : ℚ) ≤ n := by exact_mod_cast hpos
      have hsmall : (10 : ℚ) ^ 4 ≤ 2 ^ 14 := by exact_mod_cast (by decide : 10 ^ 4 ≤ 2 ^ 14)
      have hpow : (10 : ℚ) ^ 4 ≤ 2 ^ 1022 :=
        hsmall.trans (pow_le_pow_right₀ one_le_two (by decide))
      calc (1 : ℚ) / 2 ^ 1022 - 1 / 2 ^ 1076 ≤ 1 / 2 ^ 1022 := sub_le_self _ (by positivity)
        _ ≤ 1 / 10 ^ 4 := one_div_le_one_div_of_le (by positivity) hpow
        _ ≤ n / 10 ^ 4 := div_le_div_of_nonneg_right hone (by positivity)
  rw [Double.inRange, Bool.and_eq_true, decide_eq_true_eq, Bool.or_eq_true, Bool.or_eq_true,
    decide_eq_true_eq, decide_eq_true_eq]
  refine ⟨h, Or.inl ?_⟩
  rcases hsmall with rfl | hsmall
  · exact Or.inl (by simp)
  · exact Or.inr hsmall

end Read

end Decimal
