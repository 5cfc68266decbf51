import BetaTrader.Common.OutboundMessageBuilder

/-!
# Reading timestamps back

A timestamp is written in UTC and read as local time.  What comes back is the
moment in whole milliseconds, moved by what local time is ahead.
-/

namespace BetaTrader

namespace FixUtils

open Decimal

/-- `9999-12-31 23:59:59` is the last second that has a year of four digits. -/
def endOfYears : ℤ := 253402300800

theorem getNumber_digits {digits : Message} {low high : ℕ}
    (hdigits : ∀ c ∈ digits, c.isDigit = true) (hlow : low ≤ Strtoul.value digits)
    (hhigh : Strtoul.value digits ≤ high) :
    getNumber digits low high = some (Strtoul.value digits : ℤ) :=
  if_pos ⟨List.all_eq_true.mpr hdigits, hlow, hhigh⟩

theorem getNumber_natText {n low high : ℕ} (hlow : low ≤ n) (hhigh : n ≤ high) :
    getNumber (natText n) low high = some (n : ℤ) := by
  have hvalue := value_natText (n := n)
  rw [getNumber_digits (fun _ => isDigit_of_mem_natText) (by omega) (by omega), hvalue]

theorem getNumber_pad {width n low high : ℕ} (hlow : low ≤ n) (hhigh : n ≤ high) :
    getNumber (pad width (natText n)) low high = some (n : ℤ) := by
  have hvalue : Strtoul.value (pad width (natText n)) = n := value_pad.trans value_natText
  rw [getNumber_digits (fun _ => isDigit_of_mem_pad) (by omega) (by omega), hvalue]

theorem exists_of_length_two {s : Message} (h : s.length = 2) : ∃ a b, s = [a, b] :=
  List.length_eq_two.mp h

theorem exists_of_length_four {s : Message} (h : s.length = 4) : ∃ a b c d, s = [a, b, c, d] := by
  obtain ⟨a, s, rfl⟩ := List.exists_cons_of_length_eq_add_one h
  obtain ⟨b, c, d, rfl⟩ := List.length_eq_three.mp (Nat.succ_injective h)
  exact ⟨a, b, c, d, rfl⟩

/-- The text of a date and a time, with the number of digits of each part. -/
def timeText (year month day hour minute second : Message) : Message :=
  year ++ (month ++ (day ++ '-' :: (hour ++ ':' :: (minute ++ ':' :: second))))

/-- Texts of the right length are the parts of a time. -/
theorem getTime_timeText {year month day hour minute second : Message}
    (hyear : year.length = 4) (hmonth : month.length = 2) (hday : day.length = 2)
    (hhour : hour.length = 2) (hminute : minute.length = 2) (hsecond : second.length = 2) :
    getTime (timeText year month day hour minute second) = (do
      let year ← getNumber year 0 9999
      let month ← getNumber month 1 12
      let day ← getNumber day 1 31
      let hour ← getNumber hour 0 23
      let minute ← getNumber minute 0 59
      let second ← getNumber second 0 60
      return { year := year, month := month, day := day, hour := hour, minute := minute,
               second := second }) := by
  obtain ⟨y₁, y₂, y₃, y₄, rfl⟩ := exists_of_length_four hyear
  obtain ⟨mo₁, mo₂, rfl⟩ := exists_of_length_two hmonth
  obtain ⟨d₁, d₂, rfl⟩ := exists_of_length_two hday
  obtain ⟨h₁, h₂, rfl⟩ := exists_of_length_two hhour
  obtain ⟨mi₁, mi₂, rfl⟩ := exists_of_length_two hminute
  obtain ⟨s₁, s₂, rfl⟩ := exists_of_length_two hsecond
  rfl

theorem length_natText_year {n : ℕ} (hlow : 1970 ≤ n) (hhigh : n ≤ 9999) :
    (natText n).length = 4 := by
  have hle : (natText n).length ≤ 4 :=
    (Nat.length_toDigits_le_iff (by decide) (by decide)).mpr (by omega)
  have hnot : ¬(natText n).length ≤ 3 := fun h =>
    absurd ((Nat.length_toDigits_le_iff (by decide) (by decide)).mp h) (by omega)
  omega

theorem length_pad_two {n : ℕ} (h : n < 100) : (pad 2 (natText n)).length = 2 :=
  length_pad ((Nat.length_toDigits_le_iff (by decide) (by decide)).mpr h)

/-- A time of these years, in the numbers that are written. -/
structure Written (t : Calendar.DateTime) (year month day hour minute second : ℕ) : Prop where
  eq : t = ⟨year, month, day, hour, minute, second⟩
  year : 1970 ≤ year ∧ year ≤ 9999
  month : 1 ≤ month ∧ month ≤ 12
  day : 1 ≤ day ∧ day ≤ 31
  hour : hour ≤ 23
  minute : minute ≤ 59
  second : second ≤ 59

theorem exists_written {t : Calendar.DateTime} (ht : t.Valid)
    (hyear : 1970 ≤ t.year ∧ t.year ≤ 9999) :
    ∃ year month day hour minute second, Written t year month day hour minute second := by
  obtain ⟨hmonth, hday, hhour, hminute, hsecond⟩ := ht
  obtain ⟨year, month, day, hour, minute, second⟩ := t
  dsimp only at *
  lift year to ℕ using by omega
  lift month to ℕ using by omega
  lift day to ℕ using by omega
  lift hour to ℕ using by omega
  lift minute to ℕ using by omega
  lift second to ℕ using by omega
  exact ⟨year, month, day, hour, minute, second, rfl, by omega, by omega, by omega, by omega,
    by omega, by omega⟩

section Written

variable {t : Calendar.DateTime} {year month day hour minute second : ℕ}

/-- `YYYYMMDD-HH:MM:SS`. -/
def numbersText (year month day hour minute second : ℕ) : Message :=
  timeText (natText year) (pad 2 (natText month)) (pad 2 (natText day)) (pad 2 (natText hour))
    (pad 2 (natText minute)) (pad 2 (natText second))

theorem Written.getTime (h : Written t year month day hour minute second) :
    getTime (numbersText year month day hour minute second) = some t := by
  obtain ⟨rfl, hyear, hmonth, hday, hhour, hminute, hsecond⟩ := h
  rw [numbersText, getTime_timeText (length_natText_year hyear.1 hyear.2)
    (length_pad_two (by omega)) (length_pad_two (by omega)) (length_pad_two (by omega))
    (length_pad_two (by omega)) (length_pad_two (by omega)), getNumber_natText (by omega) hyear.2,
    getNumber_pad hmonth.1 hmonth.2, getNumber_pad hday.1 hday.2,
    getNumber_pad (by omega) hhour, getNumber_pad (by omega) hminute,
    getNumber_pad (by omega) (by omega)]
  rfl

theorem Written.length_numbersText (h : Written t year month day hour minute second) :
    (numbersText year month day hour minute second).length = 17 := by
  obtain ⟨rfl, hyear, hmonth, hday, hhour, hminute, hsecond⟩ := h
  have hdigits := length_natText_year hyear.1 hyear.2
  simp only [numbersText, timeText, List.length_append, List.length_cons]
  rw [hdigits, length_pad_two (by omega), length_pad_two (by omega), length_pad_two (by omega),
    length_pad_two (by omega), length_pad_two (by omega)]

theorem dot_notMem_numbersText : '.' ∉ numbersText year month day hour minute second := by
  have hdot (n : ℕ) : '.' ∉ natText n := notMem_natText (by decide) n
  have hpad (n : ℕ) : '.' ∉ pad 2 (natText n) := fun hmem =>
    absurd (isDigit_of_mem_pad hmem) (by decide)
  simp [numbersText, timeText, hdot, hpad]

end Written

/-- The text of a timestamp of these years, in the numbers that are written. -/
theorem exists_generateTimestamp_eq {now : ℤ} (hfirst : 0 ≤ now)
    (hlast : now < endOfYears * 1000000000) :
    ∃ year month day hour minute second,
      Written (Calendar.gmtime (now / 1000000000)) year month day hour minute second ∧
      OutboundMessageBuilder.generateTimestamp now =
        numbersText year month day hour minute second ++
          '.' :: pad 3 (natText (now / 1000000 % 1000).toNat) := by
  have hseconds : now.tdiv 1000000000 = now / 1000000000 := Int.tdiv_eq_ediv_of_nonneg hfirst
  have hmillis : (now.tdiv 1000000).tmod 1000 = ((now / 1000000 % 1000).toNat : ℤ) := by
    rw [Int.tdiv_eq_ediv_of_nonneg hfirst, Int.tmod_eq_emod_of_nonneg (by omega)]
    omega
  unfold endOfYears at hlast
  have hyear := Calendar.year_gmtime (show 0 ≤ now / 1000000000 by omega) (by omega)
  obtain ⟨year, month, day, hour, minute, second, hwritten⟩ :=
    exists_written (Calendar.valid_gmtime (now / 1000000000)) hyear
  refine ⟨year, month, day, hour, minute, second, hwritten, ?_⟩
  rw [OutboundMessageBuilder.generateTimestamp, hseconds, hmillis, hwritten.eq]
  simp only [intText_natCast, numbersText, timeText, List.append_assoc, List.cons_append]

/-- What is read is the moment in whole milliseconds, moved by the offset of local
time. -/
theorem parseTimestamp_generateTimestamp {now : ℤ} (hfirst : 0 ≤ now)
    (hlast : now < endOfYears * 1000000000) (utcOffset : ℤ) :
    parseTimestamp utcOffset (OutboundMessageBuilder.generateTimestamp now) =
      some (now / 1000000 * 1000000 - utcOffset * 1000000000) := by
  obtain ⟨year, month, day, hour, minute, second, hwritten, htext⟩ :=
    exists_generateTimestamp_eq hfirst hlast
  have hmillis : (now / 1000000 % 1000).toNat < 1000 := by omega
  have hlength : (pad 3 (natText (now / 1000000 % 1000).toNat)).length = 3 :=
    length_pad ((Nat.length_toDigits_le_iff (by decide) (by decide)).mpr hmillis)
  have hvalue : Strtoul.value (pad 3 (natText (now / 1000000 % 1000).toNat)) =
      (now / 1000000 % 1000).toNat := value_pad.trans value_natText
  have hstoi : Strtoul.stoi (pad 3 (natText (now / 1000000 % 1000).toNat)) =
      some (now / 1000000 % 1000) := by
    rw [stoi_digits (fun _ => isDigit_of_mem_pad)
      (List.ne_nil_of_length_pos (by omega)) (by omega), hvalue, Int.toNat_of_nonneg (by omega)]
  rw [parseTimestamp, htext, List.take_left' hwritten.length_numbersText, hwritten.getTime,
    Text.splitFirst_append dot_notMem_numbersText]
  simp only [Option.bind_eq_bind, Option.bind_some, List.take_of_length_le hlength.le, hstoi,
    Calendar.timegm_gmtime, Option.pure_def, Option.some.injEq]
  omega

/-! ## The characters of a timestamp -/

theorem notMem_intText {c : Char} (hdigit : c.isDigit = false) (hminus : c ≠ '-') (n : ℤ) :
    c ∉ intText n := by
  rw [intText]
  split_ifs
  · exact List.not_mem_cons_of_ne_of_not_mem hminus (notMem_natText hdigit _)
  · exact notMem_natText hdigit _

theorem notMem_pad {c : Char} (hdigit : c.isDigit = false) {s : Message} (h : c ∉ s)
    (width : ℕ) : c ∉ pad width s := by
  rw [pad, List.mem_append, not_or]
  refine ⟨fun hmem => ?_, h⟩
  rw [List.eq_of_mem_replicate hmem] at hdigit
  exact absurd hdigit (by decide)

/-- Digits, and what stands between the parts. -/
theorem notMem_generateTimestamp {c : Char} (hdigit : c.isDigit = false)
    (hseparators : c ∉ ['-', ':', '.']) (now : Timestamp) :
    c ∉ OutboundMessageBuilder.generateTimestamp now := by
  simp only [List.mem_cons, List.not_mem_nil, or_false, not_or] at hseparators
  obtain ⟨hminus, hcolon, hdot⟩ := hseparators
  have hint (n : ℤ) := notMem_intText hdigit hminus n
  have hpad (width : ℕ) (n : ℤ) := notMem_pad hdigit (hint n) width
  simp [OutboundMessageBuilder.generateTimestamp, hint, hpad, hminus, hcolon, hdot]

end FixUtils

end BetaTrader
