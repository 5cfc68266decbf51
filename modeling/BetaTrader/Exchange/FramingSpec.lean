import BetaTrader.Exchange.FixMessageFramer
import BetaTrader.Lib.Framing

/-!
# What the framer finds

The framer looks at its buffer from the front and decides as soon as it can: its
answer stays the same whatever arrives later, it finds every frame whose length
and checksum are right, and before the end of such a frame it waits.
-/

namespace BetaTrader

namespace FixMessageFramer

/-- A text of digits that stands for a number. -/
structure IsNumber (digits : Message) (n : ℕ) : Prop where
  isDigit : ∀ c ∈ digits, c.isDigit = true
  ne_nil : digits ≠ []
  value : Strtoul.value digits = n

/-- What the checksum of a frame counts: the begin, the length, the body. -/
def checked (bodyLength body : Message) : Message :=
  Text.close soh ["8=FIX.4.4".toList, "9=".toList ++ bodyLength] ++ body

def trailer (digits : Message) : Message := "10=".toList ++ (digits ++ [soh])

/-- `8=FIX.4.4`, the length of the body, any body, and its checksum in three
digits. -/
inductive ValidFrame : Message → Prop where
  | mk {bodyLength body digits : Message} (length : IsNumber bodyLength body.length)
      (three : digits.length = 3)
      (checksum : IsNumber digits (checksum (checked bodyLength body))) :
      ValidFrame (checked bodyLength body ++ trailer digits)

variable {bodyLength body digits buffer rest : Message} {result : FrameResult} {n : ℕ}

theorem isNumber_natText (n : ℕ) : IsNumber (Decimal.natText n) n :=
  ⟨fun _ => Decimal.isDigit_of_mem_natText, Decimal.natText_ne_nil, Decimal.value_natText⟩

theorem length_natText_le (h : n < 256) : (Decimal.natText n).length ≤ 3 :=
  (Nat.length_toDigits_le_iff (by decide) (by decide)).mpr (h.trans (by decide))

theorem length_pad_natText (h : n < 256) : (Decimal.pad 3 (Decimal.natText n)).length = 3 :=
  Decimal.length_pad (length_natText_le h)

/-- A checksum with leading zeros. -/
theorem isNumber_pad (h : n < 256) : IsNumber (Decimal.pad 3 (Decimal.natText n)) n where
  isDigit := fun _ => Decimal.isDigit_of_mem_pad
  ne_nil := List.ne_nil_of_length_pos (by rw [length_pad_natText h]; decide)
  value := by rw [Decimal.value_pad, Decimal.value_natText]

theorem IsNumber.parses (h : IsNumber digits n) (hn : n < 2 ^ 64) :
    parseUnsigned digits = some n := by
  have hvalue := h.value
  rw [parseUnsigned, hvalue]
  exact if_pos ⟨h.ne_nil, List.all_eq_true.mpr h.isDigit, hn⟩

theorem IsNumber.soh_notMem (h : IsNumber digits n) : soh ∉ digits := fun hmem => by
  have hdigit := h.isDigit soh hmem
  exact absurd hdigit (by decide)

theorem checksum_lt (s : Message) : checksum s < 256 := Nat.mod_lt _ (by decide)

theorem checked_eq (bodyLength body : Message) : checked bodyLength body =
    "8=FIX.4.4".toList ++ soh :: ("9=".toList ++ (bodyLength ++ soh :: body)) := by
  simp [checked]

theorem checked_append (bodyLength body rest : Message) :
    checked bodyLength body ++ rest = checked bodyLength (body ++ rest) := by
  simp [checked]

theorem length_checked (bodyLength body : Message) :
    (checked bodyLength body).length = 13 + bodyLength.length + body.length := by
  simp [checked]
  omega

theorem length_trailer (hthree : digits.length = 3) : (trailer digits).length = 7 := by
  simp [trailer, hthree]

/-! ## Frames are found -/

/-- BodyLength is found behind BeginString. -/
theorem extractNextFrame_checked (hlength : IsNumber bodyLength n) (hn : n < 2 ^ 64) :
    extractNextFrame (checked bodyLength rest) =
      extractBody (checked bodyLength rest) (13 + bodyLength.length) n := by
  have hdrop : ("9=".toList ++ (bodyLength ++ soh :: rest)).drop 2 = bodyLength ++ soh :: rest :=
    rfl
  have htotal := length_checked bodyLength rest
  rw [checked_eq] at htotal ⊢
  unfold extractNextFrame
  rw [if_neg (by omega), if_neg (by simp), Text.splitFirst_append (by decide)]
  dsimp only
  rw [if_neg (by simp), if_neg (by simp), if_neg (by simp), hdrop,
    Text.splitFirst_append hlength.soh_notMem]
  dsimp only
  rw [hlength.parses hn]
  dsimp only
  rw [show (("8=FIX.4.4".toList ++ soh :: ("9=".toList ++ (bodyLength ++ soh :: rest))).length -
    rest.length) = 13 + bodyLength.length by omega]

/-- The frame ends behind a checksum that is right. -/
theorem extractBody_trailer {before : Message} {bodyStart : ℕ}
    (hbefore : before.length = bodyStart + n) (hthree : digits.length = 3)
    (hchecksum : IsNumber digits (checksum before)) (hfits : before.length + 7 < 2 ^ 64) :
    extractBody (before ++ (trailer digits ++ rest)) bodyStart n =
      some (.complete (before.length + 7) (before ++ trailer digits)) := by
  have hlength : (before ++ (trailer digits ++ rest)).length =
      before.length + (7 + rest.length) := by
    rw [List.length_append, List.length_append, length_trailer hthree]
  have hlt := checksum_lt before
  have hten : (trailer digits ++ rest).take 3 = "10=".toList := rfl
  have hdigits : ((trailer digits ++ rest).drop 3).take 3 = digits := by
    rw [trailer, List.append_assoc, List.append_assoc]
    exact List.take_left' hthree
  have hsoh : (trailer digits ++ rest).drop 6 = soh :: rest := by
    rw [trailer, ← List.append_assoc, List.append_assoc]
    exact List.drop_left' (by simp [hthree])
  have hframe : (trailer digits ++ rest).take 7 = trailer digits :=
    List.take_left' (length_trailer hthree)
  unfold extractBody
  rw [if_neg (by omega)]
  dsimp only
  rw [← hbefore, hlength, if_neg (by omega), if_neg (by omega), List.drop_left, hten,
    if_neg (not_not_intro rfl), if_neg (by omega), List.drop_length_add_append,
    List.drop_length_add_append, List.take_length_add_append, hdigits, hsoh, hframe,
    hchecksum.parses (by omega), List.take_left]
  simp

/-- A frame is found at the beginning of the buffer. -/
theorem ValidFrame.extracts {frame : Message} (h : ValidFrame frame)
    (hfits : frame.length < 2 ^ 64) (rest : Message) :
    extractNextFrame (frame ++ rest) = some (.complete frame.length frame) := by
  cases h with
  | @mk bodyLength body digits hlength hthree hchecksum =>
      have htotal : (checked bodyLength body ++ trailer digits).length =
          (checked bodyLength body).length + 7 := by
        rw [List.length_append, length_trailer hthree]
      have hbefore := length_checked bodyLength body
      rw [htotal] at hfits
      rw [List.append_assoc, checked_append, extractNextFrame_checked hlength (by omega),
        ← checked_append, extractBody_trailer hbefore hthree hchecksum hfits, htotal]

/-! ## Answers stay the same -/

theorem take_drop_append {k j : ℕ} (h : k + j ≤ buffer.length) (rest : Message) :
    ((buffer ++ rest).drop k).take j = (buffer.drop k).take j := by
  rw [List.drop_append_of_le_length (by omega),
    List.take_append_of_le_length (by rw [List.length_drop]; omega)]

/-- What is decided about a buffer is decided for good.  The reader that ends
does so where a sum wraps around, which is far behind any buffer. -/
theorem extractBody_append {bodyStart : ℕ} {answer : Option FrameResult}
    (h : extractBody buffer bodyStart n = answer) (hdecided : answer ≠ some .needMoreData)
    (hfits : buffer.length + 7 < 2 ^ 64) (rest : Message)
    (hends : answer = none → (buffer ++ rest).length + 3 < 2 ^ 64) :
    extractBody (buffer ++ rest) bodyStart n = answer := by
  have hlength : (buffer ++ rest).length = buffer.length + rest.length := List.length_append
  unfold extractBody at h ⊢
  by_cases hoverflow : 2 ^ 64 - 1 - bodyStart < n
  · rwa [if_pos hoverflow] at h ⊢
  rw [if_neg hoverflow] at h ⊢
  dsimp only at h ⊢
  generalize hcs : bodyStart + n = checksumStart at h ⊢
  by_cases hshort : buffer.length < (checksumStart + 3) % 2 ^ 64
  · rw [if_pos hshort] at h
    exact absurd h.symm hdecided
  rw [if_neg hshort] at h
  rw [if_neg (by omega)]
  by_cases hbehind : buffer.length < checksumStart
  · rw [if_pos hbehind] at h
    have hfar := hends h.symm
    rw [if_pos (by omega)]
    exact h
  rw [if_neg hbehind] at h
  rw [if_neg (by omega)]
  have hthree : checksumStart + 3 ≤ buffer.length := by omega
  rw [take_drop_append hthree]
  by_cases hten : (buffer.drop checksumStart).take 3 ≠ "10=".toList
  · rwa [if_pos hten] at h ⊢
  rw [if_neg hten] at h ⊢
  by_cases hseven : buffer.length < (checksumStart + 7) % 2 ^ 64
  · rw [if_pos hseven] at h
    exact absurd h.symm hdecided
  have hseven : checksumStart + 7 ≤ buffer.length := by omega
  rw [if_neg (by omega)] at h
  rw [if_neg (by omega), take_drop_append (by omega)]
  have hsoh : ((buffer ++ rest).drop (checksumStart + 6)).head? =
      (buffer.drop (checksumStart + 6)).head? := by
    rw [List.head?_drop, List.head?_drop, List.getElem?_append_left (by omega)]
  rw [hsoh, List.take_append_of_le_length (by omega), List.take_append_of_le_length (by omega)]
  exact h

/-- The framer waits, or it has decided that the begin is malformed, or it has
read the length of the body; what follows does not change that. -/
theorem extractNextFrame_cases (buffer : Message) :
    extractNextFrame buffer = some .needMoreData ∨
    (∃ error, ∀ rest, extractNextFrame (buffer ++ rest) = some (.malformed error)) ∨
    "8=FIX.4.4".toList <+: buffer ∧ ∃ bodyStart bodyLength, ∀ rest,
      extractNextFrame (buffer ++ rest) = extractBody (buffer ++ rest) bodyStart bodyLength := by
  by_cases htwo : buffer.length < 2
  · exact Or.inl (by rw [extractNextFrame, if_pos htwo])
  have htwo' (rest : Message) : ¬(buffer ++ rest).length < 2 := by
    rw [List.length_append]
    omega
  have htake (rest : Message) : (buffer ++ rest).take 2 = buffer.take 2 :=
    List.take_append_of_le_length (by omega)
  by_cases hbegin : buffer.take 2 ≠ "8=".toList
  · exact Or.inr (Or.inl ⟨_, fun rest => by
      rw [extractNextFrame, if_neg (htwo' rest), htake, if_pos hbegin]⟩)
  cases hfirst : Text.splitFirst soh buffer with
  | none => exact Or.inl (by rw [extractNextFrame, if_neg htwo, if_neg hbegin, hfirst])
  | some parts =>
      obtain ⟨beginString, behind⟩ := parts
      obtain ⟨hbuffer, hbeginString⟩ := Text.splitFirst_eq_some_iff.mp hfirst
      have hfirst' (rest : Message) :
          Text.splitFirst soh (buffer ++ rest) = some (beginString, behind ++ rest) :=
        Text.splitFirst_eq_some_iff.mpr ⟨by rw [hbuffer]; simp, hbeginString⟩
      by_cases hversion : beginString ≠ "8=FIX.4.4".toList
      · refine Or.inr (Or.inl ⟨"unsupported FIX BeginString", fun rest => ?_⟩)
        rw [extractNextFrame, if_neg (htwo' rest), htake, if_neg hbegin, hfirst']
        exact if_pos hversion
      by_cases htag : behind.length < 2
      · refine Or.inl ?_
        rw [extractNextFrame, if_neg htwo, if_neg hbegin, hfirst]
        dsimp only
        rw [if_neg hversion, if_pos htag]
      have htag' (rest : Message) : ¬(behind ++ rest).length < 2 := by
        rw [List.length_append]
        omega
      have htake' (rest : Message) : (behind ++ rest).take 2 = behind.take 2 :=
        List.take_append_of_le_length (by omega)
      by_cases hnine : behind.take 2 ≠ "9=".toList
      · refine Or.inr (Or.inl ⟨"FIX frame is missing BodyLength (Tag 9)", fun rest => ?_⟩)
        rw [extractNextFrame, if_neg (htwo' rest), htake, if_neg hbegin, hfirst']
        dsimp only
        rw [if_neg hversion, if_neg (htag' rest), htake']
        exact if_pos hnine
      cases hsecond : Text.splitFirst soh (behind.drop 2) with
      | none =>
          refine Or.inl ?_
          rw [extractNextFrame, if_neg htwo, if_neg hbegin, hfirst]
          dsimp only
          rw [if_neg hversion, if_neg htag, if_neg hnine, hsecond]
      | some parts =>
          obtain ⟨digits, body⟩ := parts
          obtain ⟨hbehind, hdigits⟩ := Text.splitFirst_eq_some_iff.mp hsecond
          have hsecond' (rest : Message) :
              Text.splitFirst soh ((behind ++ rest).drop 2) = some (digits, body ++ rest) := by
            rw [List.drop_append_of_le_length (by omega)]
            exact Text.splitFirst_eq_some_iff.mpr ⟨by rw [hbehind]; simp, hdigits⟩
          cases hnumber : parseUnsigned digits with
          | none =>
              refine Or.inr (Or.inl
                ⟨"FIX BodyLength is not an unsigned decimal value", fun rest => ?_⟩)
              rw [extractNextFrame, if_neg (htwo' rest), htake, if_neg hbegin, hfirst']
              dsimp only
              rw [if_neg hversion, if_neg (htag' rest), htake', if_neg hnine, hsecond']
              dsimp only
              rw [hnumber]
          | some bodyLength =>
              have hstarts : "8=FIX.4.4".toList <+: buffer := by
                rw [hbuffer, not_not.mp hversion]
                exact List.prefix_append _ _
              refine Or.inr (Or.inr
                ⟨hstarts, buffer.length - body.length, bodyLength, fun rest => ?_⟩)
              have hstart : (buffer ++ rest).length - (body ++ rest).length =
                  buffer.length - body.length := by
                rw [List.length_append, List.length_append, Nat.add_sub_add_right]
              rw [extractNextFrame, if_neg (htwo' rest), htake, if_neg hbegin, hfirst']
              dsimp only
              rw [if_neg hversion, if_neg (htag' rest), htake', if_neg hnine, hsecond']
              dsimp only
              rw [hnumber]
              dsimp only
              rw [hstart]

theorem extractNextFrame_append {answer : Option FrameResult}
    (h : extractNextFrame buffer = answer) (hdecided : answer ≠ some .needMoreData)
    (hfits : buffer.length + 7 < 2 ^ 64) (rest : Message)
    (hends : answer = none → (buffer ++ rest).length + 3 < 2 ^ 64) :
    extractNextFrame (buffer ++ rest) = answer := by
  rcases extractNextFrame_cases buffer with hwait | ⟨error, herror⟩ | ⟨_, bodyStart, n, hbody⟩
  · exact absurd (h.symm.trans hwait) hdecided
  · rw [herror, ← h]
    simpa using (herror []).symm
  · rw [hbody]
    refine extractBody_append ?_ hdecided hfits rest hends
    simpa [h] using (hbody []).symm

/-! ## Frames that are found -/

theorem extractBody_complete {bodyStart consumed : ℕ} {frame : Message}
    (h : extractBody buffer bodyStart n = some (.complete consumed frame)) :
    consumed = bodyStart + n + 7 ∧ (buffer.length + 7 < 2 ^ 64 → consumed ≤ buffer.length) ∧
      ¬2 ^ 64 - 1 - bodyStart < n ∧ (buffer.drop (bodyStart + n)).take 3 = "10=".toList := by
  unfold extractBody at h
  by_cases hoverflow : 2 ^ 64 - 1 - bodyStart < n
  · rw [if_pos hoverflow] at h
    cases h
  rw [if_neg hoverflow] at h
  dsimp only at h
  by_cases hshort : buffer.length < (bodyStart + n + 3) % 2 ^ 64
  · rw [if_pos hshort] at h
    cases h
  by_cases hbehind : buffer.length < bodyStart + n
  · rw [if_neg hshort, if_pos hbehind] at h
    cases h
  by_cases hten : (buffer.drop (bodyStart + n)).take 3 = "10=".toList
  · rw [if_neg hshort, if_neg hbehind, if_neg (not_not_intro hten)] at h
    by_cases hseven : buffer.length < (bodyStart + n + 7) % 2 ^ 64
    · rw [if_pos hseven] at h
      cases h
    rw [if_neg hseven] at h
    cases hnumber : parseUnsigned ((buffer.drop (bodyStart + n + 3)).take 3) with
    | none =>
        rw [hnumber] at h
        cases h
    | some expectedChecksum =>
        rw [hnumber] at h
        dsimp only at h
        split_ifs at h <;> cases h
        exact ⟨rfl, fun hfits => by omega, hoverflow, hten⟩
  · rw [if_neg hshort, if_neg hbehind, if_pos hten] at h
    cases h

/-- What is found lies in the buffer. -/
theorem extractNextFrame_complete {consumed : ℕ} {frame : Message}
    (h : extractNextFrame buffer = some (.complete consumed frame)) :
    7 ≤ consumed ∧ (buffer.length + 7 < 2 ^ 64 → consumed ≤ buffer.length) := by
  rcases extractNextFrame_cases buffer with hwait | ⟨error, herror⟩ | ⟨_, bodyStart, n, hbody⟩
  · simp [hwait] at h
  · have herror := herror []
    simp [h] at herror
  · have hbody := hbody []
    rw [List.append_nil, h] at hbody
    obtain ⟨hconsumed, hle, _⟩ := extractBody_complete hbody.symm
    exact ⟨by omega, hle⟩

/-- Without the begin of a frame the framer waits only for a separator. -/
theorem soh_notMem_of_needMoreData (h : extractNextFrame buffer = some .needMoreData)
    (hbegin : ¬"8=FIX.4.4".toList <+: buffer) (htwo : ¬buffer.length < 2) : soh ∉ buffer := by
  intro hmem
  obtain ⟨beginString, behind, hbuffer, hbeginString⟩ := List.eq_append_cons_of_mem hmem
  have hfirst := Text.splitFirst_eq_some_iff.mpr ⟨hbuffer, hbeginString⟩
  have hversion : beginString ≠ "8=FIX.4.4".toList := fun heq =>
    hbegin (hbuffer ▸ heq ▸ List.prefix_append _ _)
  rw [extractNextFrame, if_neg htwo] at h
  by_cases hnot : buffer.take 2 ≠ "8=".toList
  · rw [if_pos hnot] at h
    cases h
  · rw [if_neg hnot, hfirst] at h
    dsimp only at h
    rw [if_pos hversion] at h
    cases h

theorem needMoreData_of_soh_notMem (hsoh : soh ∉ buffer) (hbegin : "8=".toList <+: buffer) :
    extractNextFrame buffer = some .needMoreData := by
  obtain ⟨behind, rfl⟩ := hbegin
  rw [extractNextFrame, if_neg (by simp), if_neg (by simp), Text.splitFirst_eq_none_iff.mpr hsoh]

/-- Before its end the framer waits for the rest of a frame. -/
theorem ValidFrame.waits {part missing : Message} (h : ValidFrame (part ++ missing))
    (hfits : (part ++ missing).length < 2 ^ 64) (hne : missing ≠ []) :
    extractNextFrame part = some .needMoreData := by
  have hframe := h.extracts hfits []
  rw [List.append_nil] at hframe
  have hlength : (part ++ missing).length = part.length + missing.length := List.length_append
  have hpos := List.length_pos_iff.mpr hne
  rcases extractNextFrame_cases part with hwait | ⟨error, herror⟩ | ⟨_, bodyStart, n, hbody⟩
  · exact hwait
  · simp [herror] at hframe
  · rw [hbody] at hframe
    obtain ⟨hconsumed, _, hoverflow, hten⟩ := extractBody_complete hframe
    have hpart : extractNextFrame part = extractBody part bodyStart n := by simpa using hbody []
    rw [hpart]
    unfold extractBody
    rw [if_neg hoverflow]
    dsimp only
    by_cases hshort : part.length < (bodyStart + n + 3) % 2 ^ 64
    · rw [if_pos hshort]
    · rw [take_drop_append (by omega)] at hten
      rw [if_neg hshort, if_neg (by omega), if_neg (not_not_intro hten), if_pos (by omega)]

end FixMessageFramer

end BetaTrader
