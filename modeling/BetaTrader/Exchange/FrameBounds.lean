import BetaTrader.Exchange.FramingSpec
import BetaTrader.Lib.StringView

/-!
# Where the framer reads

`fix::extractNextFrame` once more, with positions of 64 bits and every `substr` and
every index as the source has it: `none` is a `substr` that starts behind the end of the
buffer, or an index outside it.  Only the length of the body may lead there, and only if
the sum for the three characters behind the body wraps round.
-/

namespace BetaTrader

namespace FrameBounds

open StringView FixMessageFramer

/-- From the end of the BodyLength field on. -/
def extractBody (buffer : Message) (bodyStart bodyLength : UInt64) : Option FrameResult :=
  if 0xFFFFFFFFFFFFFFFF - bodyStart < bodyLength then
    some (.malformed "FIX BodyLength overflows the receive buffer")
  else
    let checksumStart := bodyStart + bodyLength
    if size buffer < checksumStart + 3 then some .needMoreData
    else do
      let tag ← substr buffer checksumStart 3
      if tag ≠ "10=".toList then
        some (.malformed "FIX checksum field is not at the BodyLength boundary")
      else if size buffer < checksumStart + 7 then some .needMoreData
      else
        let checksumDigits ← substr buffer (checksumStart + 3) 3
        match parseUnsigned checksumDigits with
        | none => some (.malformed "FIX checksum field is malformed")
        | some expectedChecksum =>
            let separator ← StringView.get buffer (checksumStart + 6)
            if separator ≠ soh then some (.malformed "FIX checksum field is malformed")
            else
              let frameLength := checksumStart + 7
              let checked ← substr buffer 0 checksumStart
              if checksum checked ≠ expectedChecksum then
                some (.malformed "FIX checksum validation failed")
              else
                let frame ← substr buffer 0 frameLength
                some (.complete frameLength.toNat frame)

/-- From the end of the BeginString field on. -/
def extractLength (buffer : Message) (bodyLengthStart : UInt64) : Option FrameResult :=
  if size buffer < bodyLengthStart + 2 then some .needMoreData
  else do
    let tag ← substr buffer bodyLengthStart 2
    if tag ≠ "9=".toList then some (.malformed "FIX frame is missing BodyLength (Tag 9)")
    else
      match find buffer (bodyLengthStart + 2) soh with
      | none => some .needMoreData
      | some bodyLengthEnd =>
          let digits ← substr buffer (bodyLengthStart + 2) (bodyLengthEnd - bodyLengthStart - 2)
          match parseUnsigned digits with
          | none => some (.malformed "FIX BodyLength is not an unsigned decimal value")
          | some bodyLength => extractBody buffer (bodyLengthEnd + 1) (UInt64.ofNat bodyLength)

def extractNextFrame (buffer : Message) : Option FrameResult :=
  if size buffer = 0 then some .needMoreData
  else if size buffer < 2 then some .needMoreData
  else do
    let begins ← substr buffer 0 2
    if begins ≠ "8=".toList then
      some (.malformed "FIX frame must start with BeginString (Tag 8)")
    else
      match find buffer 0 soh with
      | none => some .needMoreData
      | some beginStringEnd =>
          let beginString ← substr buffer 0 beginStringEnd
          if beginString ≠ "8=FIX.4.4".toList then
            some (.malformed "unsupported FIX BeginString")
          else extractLength buffer (beginStringEnd + 1)

variable {buffer : Message}

/-- No sum of the part in front of the body wraps round. -/
theorem extractBody_eq {bodyStart bodyLength : UInt64} (hfits : buffer.length + 7 < 2 ^ 64) :
    extractBody buffer bodyStart bodyLength =
      FixMessageFramer.extractBody buffer bodyStart.toNat bodyLength.toNat := by
  have hsize := toNat_size (s := buffer) (by omega)
  have hmax : (0xFFFFFFFFFFFFFFFF : UInt64).toNat = 2 ^ 64 - 1 := rfl
  have hstart := bodyStart.toNat_lt
  have hle : bodyStart ≤ 0xFFFFFFFFFFFFFFFF := by
    rw [UInt64.le_iff_toNat_le, hmax]
    omega
  have hoverflow : 0xFFFFFFFFFFFFFFFF - bodyStart < bodyLength ↔
      2 ^ 64 - 1 - bodyStart.toNat < bodyLength.toNat := by
    rw [UInt64.lt_iff_toNat_lt, UInt64.toNat_sub_of_le _ _ hle, hmax]
  unfold extractBody FixMessageFramer.extractBody
  by_cases h : 2 ^ 64 - 1 - bodyStart.toNat < bodyLength.toNat
  · rw [if_pos (hoverflow.mpr h), if_pos h]
  rw [if_neg (mt hoverflow.mp h), if_neg h]
  have hsum : (bodyStart + bodyLength).toNat = bodyStart.toNat + bodyLength.toNat :=
    toNat_add_of_lt (by omega)
  simp only [Option.bind_eq_bind]
  rw [← hsum]
  generalize bodyStart + bodyLength = checksumStart
  have hthree : size buffer < checksumStart + 3 ↔
      buffer.length < (checksumStart.toNat + 3) % 2 ^ 64 := by
    rw [UInt64.lt_iff_toNat_lt, hsize, UInt64.toNat_add]
    rfl
  have hseven : size buffer < checksumStart + 7 ↔
      buffer.length < (checksumStart.toNat + 7) % 2 ^ 64 := by
    rw [UInt64.lt_iff_toNat_lt, hsize, UInt64.toNat_add]
    rfl
  by_cases hshort : buffer.length < (checksumStart.toNat + 3) % 2 ^ 64
  · rw [if_pos (hthree.mpr hshort), if_pos hshort]
  rw [if_neg (mt hthree.mp hshort), if_neg hshort]
  by_cases hbehind : buffer.length < checksumStart.toNat
  · rw [substr_of_lt (by omega) hbehind, if_pos hbehind]
    rfl
  rw [substr_of_le (by omega) (by omega), if_neg hbehind, Option.bind_some,
    show UInt64.toNat 3 = 3 from rfl]
  by_cases htag : (buffer.drop checksumStart.toNat).take 3 = "10=".toList
  swap
  · rw [if_pos htag, if_pos htag]
  rw [if_neg (not_not_intro htag), if_neg (not_not_intro htag)]
  by_cases hwait : buffer.length < (checksumStart.toNat + 7) % 2 ^ 64
  · rw [if_pos (hseven.mpr hwait), if_pos hwait]
  rw [if_neg (mt hseven.mp hwait), if_neg hwait]
  -- from here on the whole trailer lies in the buffer
  have htrailer : checksumStart.toNat + 7 ≤ buffer.length := by omega
  have hadd : ∀ k : UInt64, k.toNat ≤ 7 →
      (checksumStart + k).toNat = checksumStart.toNat + k.toNat :=
    fun k hk => toNat_add_of_lt (by omega)
  have hdigits : (checksumStart + 3).toNat = checksumStart.toNat + 3 := hadd 3 (by decide)
  have hseparator : (checksumStart + 6).toNat = checksumStart.toNat + 6 := hadd 6 (by decide)
  have hframe : (checksumStart + 7).toNat = checksumStart.toNat + 7 := hadd 7 (by decide)
  rw [substr_of_le (by omega) (by omega), Option.bind_some, hdigits,
    show UInt64.toNat 3 = 3 from rfl]
  cases parseUnsigned ((buffer.drop (checksumStart.toNat + 3)).take 3) with
  | none => rfl
  | some expectedChecksum =>
      dsimp only
      rw [StringView.get, hseparator, List.head?_drop, List.getElem?_eq_getElem (by omega),
        Option.bind_some]
      by_cases hsoh : buffer[checksumStart.toNat + 6] = soh
      swap
      · rw [if_pos hsoh, if_pos fun heq => hsoh (Option.some.inj heq)]
      rw [if_neg (not_not_intro hsoh), if_neg (not_not_intro (congrArg some hsoh)),
        substr_of_le (by omega) (Nat.zero_le _), substr_of_le (by omega) (Nat.zero_le _),
        Option.bind_some, Option.bind_some, hframe]
      rfl

theorem lt_parse {digits : Message} {n : ℕ} (h : parseUnsigned digits = some n) : n < 2 ^ 64 := by
  unfold parseUnsigned at h
  split_ifs at h with hnumber
  rw [← Option.some.inj h]
  exact hnumber.2.2

theorem extractLength_eq {before rest : Message} {bodyLengthStart : UInt64}
    (hfits : buffer.length + 7 < 2 ^ 64) (hbuffer : buffer = before ++ rest)
    (hstart : bodyLengthStart.toNat = before.length) :
    extractLength buffer bodyLengthStart =
      if rest.length < 2 then some .needMoreData
      else if rest.take 2 ≠ "9=".toList then
        some (.malformed "FIX frame is missing BodyLength (Tag 9)")
      else
        match Text.splitFirst soh (rest.drop 2) with
        | none => some .needMoreData
        | some (digits, body) =>
            match parseUnsigned digits with
            | none => some (.malformed "FIX BodyLength is not an unsigned decimal value")
            | some bodyLength =>
                FixMessageFramer.extractBody buffer (buffer.length - body.length) bodyLength := by
  have hlength : buffer.length = before.length + rest.length := by
    rw [hbuffer, List.length_append]
  have htwo : (bodyLengthStart + 2).toNat = before.length + 2 := by
    rw [toNat_add_of_lt (by rw [hstart]; exact (by omega : before.length + 2 < 2 ^ 64)), hstart]
    rfl
  have hdrop : buffer.drop bodyLengthStart.toNat = rest := by
    rw [hstart, hbuffer]
    exact List.drop_left
  have hdrop' : buffer.drop (bodyLengthStart + 2).toNat = rest.drop 2 := by
    rw [htwo, ← List.drop_drop, ← hstart, hdrop]
  have hwait : size buffer < bodyLengthStart + 2 ↔ rest.length < 2 := by
    rw [UInt64.lt_iff_toNat_lt, toNat_size (by omega), htwo]
    omega
  unfold extractLength
  by_cases hshort : rest.length < 2
  · rw [if_pos (hwait.mpr hshort), if_pos hshort]
  rw [if_neg (mt hwait.mp hshort), if_neg hshort, substr_of_le (by omega) (by omega), hdrop]
  simp only [Option.bind_eq_bind, Option.bind_some]
  change (if rest.take 2 ≠ "9=".toList then _ else _) = _
  by_cases htag : rest.take 2 = "9=".toList
  swap
  · rw [if_pos htag, if_pos htag]
  rw [if_neg (not_not_intro htag), if_neg (not_not_intro htag)]
  cases hsecond : Text.splitFirst soh (rest.drop 2) with
  | none =>
      have hnot := Text.splitFirst_eq_none_iff.mp hsecond
      rw [find_of_notMem (hdrop' ▸ hnot)]
  | some parts =>
      obtain ⟨digits, body⟩ := parts
      obtain ⟨hrest, hnot⟩ := Text.splitFirst_eq_some_iff.mp hsecond
      have hrestLength : rest.length = 2 + (digits.length + (body.length + 1)) := by
        have hdropped := congrArg List.length hrest
        rw [List.length_drop, List.length_append, List.length_cons] at hdropped
        omega
      rw [find_of_drop_eq (hdrop'.trans hrest) hnot]
      have hend : (bodyLengthStart + 2 + UInt64.ofNat digits.length).toNat =
          before.length + 2 + digits.length := by
        rw [UInt64.toNat_add, htwo, UInt64.toNat_ofNat']
        omega
      generalize bodyLengthStart + 2 + UInt64.ofNat digits.length = bodyLengthEnd at hend ⊢
      have hdifference : (bodyLengthEnd - bodyLengthStart).toNat = 2 + digits.length := by
        rw [UInt64.toNat_sub_of_le _ _ (by rw [UInt64.le_iff_toNat_le]; omega), hend, hstart]
        omega
      have hle : 2 ≤ bodyLengthEnd - bodyLengthStart := by
        rw [UInt64.le_iff_toNat_le, hdifference]
        exact Nat.le_add_right _ _
      have hcount : (bodyLengthEnd - bodyLengthStart - 2).toNat = digits.length := by
        rw [UInt64.toNat_sub_of_le _ _ hle, hdifference]
        exact Nat.add_sub_cancel_left ..
      have hbody : (bodyLengthEnd + 1).toNat = buffer.length - body.length := by
        rw [UInt64.toNat_add, hend, show UInt64.toNat 1 = 1 from rfl]
        omega
      dsimp only
      rw [substr_of_le (by omega) (by omega), Option.bind_some, hcount, hdrop', hrest,
        List.take_left]
      cases hnumber : parseUnsigned digits with
      | none => rfl
      | some bodyLength =>
          dsimp only
          rw [extractBody_eq hfits, hbody, UInt64.toNat_ofNat',
            Nat.mod_eq_of_lt (lt_parse hnumber)]

/-- Both models of the framer agree on all buffers that end well before `2 ^ 64`. -/
theorem extractNextFrame_eq (hfits : buffer.length + 7 < 2 ^ 64) :
    extractNextFrame buffer = FixMessageFramer.extractNextFrame buffer := by
  have hsize := toNat_size (s := buffer) (by omega)
  have htwo : size buffer < 2 ↔ buffer.length < 2 := by
    rw [UInt64.lt_iff_toNat_lt, hsize]
    rfl
  unfold extractNextFrame FixMessageFramer.extractNextFrame
  by_cases hshort : buffer.length < 2
  · rw [if_pos hshort, if_pos (htwo.mpr hshort)]
    exact ite_self _
  have hzero : ¬size buffer = 0 := by
    rw [← UInt64.toNat_inj, hsize]
    exact fun h => hshort (h ▸ by decide)
  rw [if_neg hzero, if_neg (mt htwo.mp hshort), if_neg hshort,
    substr_of_le (by omega) (Nat.zero_le _)]
  simp only [Option.bind_eq_bind, Option.bind_some]
  change (if buffer.take 2 ≠ "8=".toList then _ else _) = _
  by_cases hbegin : buffer.take 2 = "8=".toList
  swap
  · rw [if_pos hbegin, if_pos hbegin]
  rw [if_neg (not_not_intro hbegin), if_neg (not_not_intro hbegin)]
  cases hfirst : Text.splitFirst soh buffer with
  | none =>
      rw [find_of_notMem (Text.splitFirst_eq_none_iff.mp hfirst)]
  | some parts =>
      obtain ⟨beginString, rest⟩ := parts
      obtain ⟨hbuffer, hnot⟩ := Text.splitFirst_eq_some_iff.mp hfirst
      have hlength : buffer.length = beginString.length + (rest.length + 1) := by
        rw [hbuffer, List.length_append, List.length_cons]
      have hfind : find buffer 0 soh = some (0 + UInt64.ofNat beginString.length) :=
        find_of_drop_eq hbuffer hnot
      rw [hfind]
      have hend : (0 + UInt64.ofNat beginString.length).toNat = beginString.length := by
        rw [UInt64.zero_add, UInt64.toNat_ofNat']
        exact Nat.mod_eq_of_lt (by omega)
      generalize 0 + UInt64.ofNat beginString.length = beginStringEnd at hend ⊢
      have htake : (buffer.drop (0 : UInt64).toNat).take beginStringEnd.toNat = beginString := by
        rw [hend, hbuffer]
        exact List.take_left
      dsimp only
      rw [substr_of_le (by omega) (Nat.zero_le _), Option.bind_some, htake]
      by_cases hversion : beginString = "8=FIX.4.4".toList
      swap
      · rw [if_pos hversion, if_pos hversion]
      rw [if_neg (not_not_intro hversion), if_neg (not_not_intro hversion)]
      have hbefore : buffer = (beginString ++ [soh]) ++ rest := by
        rw [hbuffer, List.append_assoc, List.singleton_append]
      refine extractLength_eq hfits hbefore ?_
      rw [UInt64.toNat_add, hend, List.length_append, List.length_singleton,
        show UInt64.toNat 1 = 1 from rfl]
      exact Nat.mod_eq_of_lt (by omega)

/-! ## Safety -/

/-- The framer returns, what it finds is at the beginning of the buffer, and bytes that
come later change no answer but the one to wait for them. -/
structure Safe (buffer : Message) : Prop where
  returns : (extractNextFrame buffer).isSome
  complete : ∀ consumed frame, extractNextFrame buffer = some (.complete consumed frame) →
    0 < consumed ∧ consumed ≤ buffer.length ∧ frame = buffer.take consumed
  stable : ∀ answer, extractNextFrame buffer = some answer → answer ≠ .needMoreData →
    ∀ rest, (buffer ++ rest).length < 2 ^ 63 → extractNextFrame (buffer ++ rest) = some answer

/-- The body would end so near `2 ^ 64` that three characters more wrap round. -/
def LengthWraps (buffer : Message) : Prop :=
  ∃ bodyLength rest n, buffer = checked bodyLength rest ∧ IsNumber bodyLength n ∧
    2 ^ 64 ≤ 13 + bodyLength.length + n + 3 ∧ 13 + bodyLength.length + n < 2 ^ 64

theorem frame_of_complete {bodyStart n consumed : ℕ} {frame : Message}
    (h : FixMessageFramer.extractBody buffer bodyStart n = some (.complete consumed frame)) :
    frame = buffer.take consumed := by
  unfold FixMessageFramer.extractBody at h
  dsimp only at h
  cases hnumber : parseUnsigned ((buffer.drop (bodyStart + n + 3)).take 3) with
  | none =>
      rw [hnumber] at h
      split_ifs at h <;> cases h
  | some expectedChecksum =>
      rw [hnumber] at h
      dsimp only at h
      split_ifs at h <;> cases h
      rfl

theorem frame_of_found {consumed : ℕ} {frame : Message}
    (h : FixMessageFramer.extractNextFrame buffer = some (.complete consumed frame)) :
    frame = buffer.take consumed := by
  rcases extractNextFrame_cases buffer with hwait | ⟨error, herror⟩ | ⟨_, bodyStart, n, hbody⟩
  · simp [hwait] at h
  · have herror := herror []
    simp [h] at herror
  · have hbody := hbody []
    rw [List.append_nil, h] at hbody
    exact frame_of_complete hbody.symm

theorem isNumber_of_parse {digits : Message} {n : ℕ} (h : parseUnsigned digits = some n) :
    IsNumber digits n := by
  unfold parseUnsigned at h
  split_ifs at h with hnumber
  obtain ⟨hne, hdigits, _⟩ := hnumber
  exact ⟨List.all_eq_true.mp hdigits, hne, Option.some.inj h⟩

theorem extractBody_eq_none_iff {bodyStart n : ℕ} (hfits : buffer.length < 2 ^ 63)
    (hstart : 3 ≤ bodyStart) (hle : bodyStart ≤ buffer.length) :
    FixMessageFramer.extractBody buffer bodyStart n = none ↔
      2 ^ 64 ≤ bodyStart + n + 3 ∧ bodyStart + n < 2 ^ 64 := by
  unfold FixMessageFramer.extractBody
  by_cases hoverflow : 2 ^ 64 - 1 - bodyStart < n
  · rw [if_pos hoverflow]
    exact iff_of_false (by simp) (by omega)
  rw [if_neg hoverflow]
  dsimp only
  by_cases hshort : buffer.length < (bodyStart + n + 3) % 2 ^ 64
  · rw [if_pos hshort]
    exact iff_of_false (by simp) (by omega)
  rw [if_neg hshort]
  by_cases hbehind : buffer.length < bodyStart + n
  · rw [if_pos hbehind]
    exact iff_of_true rfl (by omega)
  rw [if_neg hbehind]
  refine iff_of_false (fun h => ?_) (by omega)
  cases hnumber : parseUnsigned ((buffer.drop (bodyStart + n + 3)).take 3) with
  | none =>
      rw [hnumber] at h
      split_ifs at h
  | some expectedChecksum =>
      rw [hnumber] at h
      dsimp only at h
      split_ifs at h

/-- Where the framer does not return, it has read a length. -/
theorem exists_of_eq_none (h : FixMessageFramer.extractNextFrame buffer = none) :
    ∃ bodyLength rest n, buffer = checked bodyLength rest ∧ IsNumber bodyLength n ∧
      n < 2 ^ 64 := by
  unfold FixMessageFramer.extractNextFrame at h
  split_ifs at h
  split at h
  · cases h
  next beginString behind hfirst =>
    split_ifs at h with hversion hshort htag
    split at h
    · cases h
    next bodyLength rest hsecond =>
      split at h
      · cases h
      next n hnumber =>
        refine ⟨bodyLength, rest, n, ?_, isNumber_of_parse hnumber, lt_parse hnumber⟩
        have hbuffer := (Text.splitFirst_eq_some_iff.mp hfirst).1
        have hrest := (Text.splitFirst_eq_some_iff.mp hsecond).1
        rw [checked_eq, hbuffer, not_not.mp hversion, ← hrest, ← not_not.mp htag,
          List.take_append_drop]

theorem eq_none_iff (hfits : buffer.length < 2 ^ 63) :
    FixMessageFramer.extractNextFrame buffer = none ↔ LengthWraps buffer := by
  constructor
  · intro h
    obtain ⟨bodyLength, rest, n, rfl, hlength, hn⟩ := exists_of_eq_none h
    have htotal := length_checked bodyLength rest
    rw [extractNextFrame_checked hlength hn] at h
    have hwraps := (extractBody_eq_none_iff hfits (by omega) (by omega)).mp h
    exact ⟨bodyLength, rest, n, rfl, hlength, hwraps⟩
  · rintro ⟨bodyLength, rest, n, rfl, hlength, hwraps, hbounded⟩
    have htotal := length_checked bodyLength rest
    rw [extractNextFrame_checked hlength (by omega)]
    exact (extractBody_eq_none_iff hfits (by omega) (by omega)).mpr ⟨hwraps, hbounded⟩

/-- The framer is safe but for lengths that lead past the end of 64 bits. -/
theorem safe_iff (hfits : buffer.length < 2 ^ 63) : Safe buffer ↔ ¬LengthWraps buffer := by
  have heq : extractNextFrame buffer = FixMessageFramer.extractNextFrame buffer :=
    extractNextFrame_eq (by omega)
  rw [← eq_none_iff hfits, ← heq]
  constructor
  · intro h hnone
    have hreturns := h.returns
    rw [hnone] at hreturns
    cases hreturns
  · intro hreturns
    refine ⟨Option.isSome_iff_ne_none.mpr hreturns, fun consumed frame h => ?_,
      fun answer h hdecided rest hrest => ?_⟩
    · rw [heq] at h
      obtain ⟨hpos, hle⟩ := extractNextFrame_complete h
      exact ⟨by omega, hle (by omega), frame_of_found h⟩
    · rw [heq] at h
      rw [extractNextFrame_eq (by omega)]
      apply extractNextFrame_append h
      · simpa using hdecided
      · omega
      · simp

def wholeFrame : Message := "8=FIX.4.4\x019=5\x0135=0\x0110=163\x01".toList

theorem safe_iff_sample : Safe wholeFrame := by
  have hfits : wholeFrame.length < 2 ^ 63 := by decide
  apply (safe_iff hfits).mpr
  rw [← eq_none_iff hfits]
  decide +kernel

/-- The body would end at `2 ^ 64 - 3`. -/
def wrappingFrame : Message := "8=FIX.4.4\x019=18446744073709551580\x01".toList

/-- The `substr` behind the body throws. -/
theorem substr_throws : wrappingFrame.length < 2 ^ 63 ∧ extractNextFrame wrappingFrame = none ∧
    ¬Safe wrappingFrame := by
  have hnone : extractNextFrame wrappingFrame = none := by decide +kernel
  refine ⟨by decide, hnone, fun h => ?_⟩
  have hreturns := h.returns
  rw [hnone] at hreturns
  cases hreturns

end FrameBounds

end BetaTrader
