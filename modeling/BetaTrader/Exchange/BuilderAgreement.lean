import BetaTrader.Exchange.BuiltMessage

/-!
# The builder and the framer

The builder sums up signed characters and takes the remainder of C, the framer
sums up unsigned ones.  They agree as long as the signed sum is not below zero,
or has no remainder; else the builder writes a minus sign into the checksum.
-/

namespace BetaTrader

open Decimal

/-- The sum of the bytes. -/
def byteSum (s : Message) : ℕ := (s.map Char.toNat).sum

/-- How many bytes are negative as characters. -/
def highBytes (s : Message) : ℕ := s.countP fun c => 128 ≤ c.toNat

theorem byteSum_cons (c : Char) (s : Message) : byteSum (c :: s) = c.toNat + byteSum s := rfl

theorem highBytes_cons (c : Char) (s : Message) :
    highBytes (c :: s) = highBytes s + if 128 ≤ c.toNat then 1 else 0 := by
  simp [highBytes, List.countP_cons]

namespace OutboundMessageBuilder

/-- `payload` of `buildMessage`. -/
def payloadText (senderCompId targetCompId : Message) (msgSeqNum : UInt32)
    (msgType bodyStr : Message) (now : Timestamp) : Message :=
  Text.close soh [
    FixUtils.field 35 msgType, FixUtils.field 49 senderCompId, FixUtils.field 56 targetCompId,
    FixUtils.field 34 (natText msgSeqNum.toNat), FixUtils.field 52 (generateTimestamp now)] ++
  bodyStr

/-- `msgBeforeChecksum`: the text that the checksum counts. -/
def checkedText (senderCompId targetCompId : Message) (msgSeqNum : UInt32)
    (msgType bodyStr : Message) (now : Timestamp) : Message :=
  FixMessageFramer.checked
    (natText (payloadText senderCompId targetCompId msgSeqNum msgType bodyStr now).length)
    (payloadText senderCompId targetCompId msgSeqNum msgType bodyStr now)

variable {senderCompId targetCompId msgType bodyStr : Message} {msgSeqNum : UInt32}
  {now : Timestamp}

theorem buildMessage_eq_checkedText :
    buildMessage senderCompId targetCompId msgSeqNum msgType bodyStr now =
      checkedText senderCompId targetCompId msgSeqNum msgType bodyStr now ++
        FixMessageFramer.trailer (pad 3 (intText
          (checksum (checkedText senderCompId targetCompId msgSeqNum msgType bodyStr now)))) := by
  have htags : natText 8 = ['8'] ∧ natText 9 = ['9'] ∧ natText 10 = ['1', '0'] := ⟨rfl, rfl, rfl⟩
  have hchecked (payload : Message) : FixMessageFramer.checked (natText payload.length) payload =
      Text.close soh [FixUtils.field 8 "FIX.4.4".toList,
        FixUtils.field 9 (natText payload.length)] ++ payload := by
    simp [FixMessageFramer.checked, FixUtils.field, htags]
  have htrailer (digits : Message) : FixMessageFramer.trailer digits =
      Text.close soh [FixUtils.field 10 digits] := by
    simp [FixMessageFramer.trailer, FixUtils.field, htags]
  rw [checkedText, htrailer, hchecked]
  rfl

/-- The signed sum of the characters of a text. -/
theorem sum_charValue_eq (s : Message) :
    (s.map charValue).sum = byteSum s - 256 * (highBytes s : ℤ) := by
  induction s with
  | nil => rfl
  | cons c s ih =>
      rw [List.map_cons, List.sum_cons, ih, byteSum_cons, highBytes_cons, charValue]
      split_ifs <;> omega

/-- The signed sum of the text is not below zero, or it has no remainder. -/
def SumsUp (s : Message) : Prop := 256 * highBytes s ≤ byteSum s ∨ 256 ∣ byteSum s

instance (s : Message) : Decidable (SumsUp s) :=
  inferInstanceAs (Decidable (256 * highBytes s ≤ byteSum s ∨ 256 ∣ byteSum s))

theorem checksum_of_sumsUp {s : Message} (h : SumsUp s) :
    checksum s = FixMessageFramer.checksum s := by
  unfold SumsUp at h
  rw [checksum, sum_charValue_eq, Int.tmod_eq_emod, FixMessageFramer.checksum, ← byteSum,
    if_pos (by omega)]
  omega

theorem checksum_neg {s : Message} (h : ¬SumsUp s) : checksum s < 0 := by
  unfold SumsUp at h
  rw [checksum, sum_charValue_eq, Int.tmod_eq_emod, if_neg (by omega)]
  omega

/-- A negative checksum has its sign among the characters that the framer takes
for digits. -/
theorem parseUnsigned_neg {n : ℤ} (hneg : n < 0) (rest : Message) :
    FixMessageFramer.parseUnsigned ((pad 3 (intText n) ++ rest).take 3) = none := by
  have hpos : 0 < (natText n.natAbs).length := List.length_pos_iff.mpr natText_ne_nil
  have hsign : '-' ∈ (pad 3 (intText n) ++ rest).take 3 := by
    rw [intText, if_pos hneg, pad, List.length_cons, List.append_assoc, List.cons_append]
    generalize hzeros : 3 - ((natText n.natAbs).length + 1) = zeros
    have hthree : zeros < 3 := by omega
    have hat : ((List.replicate zeros '0' ++ '-' :: (natText n.natAbs ++ rest)).take 3)[zeros]? =
        some '-' := by
      rw [List.getElem?_take_of_lt hthree, List.getElem?_append_right (by simp)]
      simp
    exact List.mem_of_getElem? hat
  rw [FixMessageFramer.parseUnsigned, if_neg]
  rintro ⟨_, hdigits, _⟩
  exact absurd (List.all_eq_true.mp hdigits '-' hsign) (by decide)

end OutboundMessageBuilder

namespace FixMessageFramer

/-- A checksum that is no number is malformed. -/
theorem extractBody_malformed {before digits rest : Message} {bodyStart n : ℕ}
    (hbefore : before.length = bodyStart + n) (hthree : 3 ≤ digits.length)
    (hchecksum : parseUnsigned ((digits ++ soh :: rest).take 3) = none)
    (hfits : before.length + 7 < 2 ^ 64) :
    extractBody (before ++ ("10=".toList ++ (digits ++ soh :: rest))) bodyStart n =
      some (.malformed "FIX checksum field is malformed") := by
  have hlength : (before ++ ("10=".toList ++ (digits ++ soh :: rest))).length =
      before.length + (4 + digits.length + rest.length) := by
    have hten : "10=".toList.length = 3 := rfl
    simp only [List.length_append, List.length_cons, hten]
    omega
  have hten : ("10=".toList ++ (digits ++ soh :: rest)).take 3 = "10=".toList := rfl
  have hdigits : ("10=".toList ++ (digits ++ soh :: rest)).drop 3 = digits ++ soh :: rest := rfl
  unfold extractBody
  rw [if_neg (by omega)]
  dsimp only
  rw [← hbefore, hlength, if_neg (by omega), if_neg (by omega), List.drop_left, hten,
    if_neg (not_not_intro rfl), if_neg (by omega), List.drop_length_add_append, hdigits, hchecksum]

open OutboundMessageBuilder

variable {senderCompId targetCompId msgType bodyStr : Message} {msgSeqNum : UInt32}
  {now : Timestamp}

/-- The framer finds a message of the builder exactly when the characters of its
text, with their signs, sum up. -/
theorem extractNextFrame_buildMessage_iff
    (hlength : (buildMessage senderCompId targetCompId msgSeqNum msgType bodyStr now).length <
      2 ^ 24) (rest : Message) :
    extractNextFrame (buildMessage senderCompId targetCompId msgSeqNum msgType bodyStr now ++
        rest) =
      some (.complete
        (buildMessage senderCompId targetCompId msgSeqNum msgType bodyStr now).length
        (buildMessage senderCompId targetCompId msgSeqNum msgType bodyStr now)) ↔
    SumsUp (checkedText senderCompId targetCompId msgSeqNum msgType bodyStr now) := by
  rw [buildMessage_eq_checkedText] at hlength ⊢
  rw [checkedText] at hlength ⊢
  generalize payloadText senderCompId targetCompId msgSeqNum msgType bodyStr now = payload
    at hlength ⊢
  have hbefore := length_checked (natText payload.length) payload
  rw [List.length_append] at hlength
  constructor
  · intro h
    by_contra hnot
    have hneg := checksum_neg hnot
    generalize OutboundMessageBuilder.checksum (checked (natText payload.length) payload) = sum
      at h hneg
    have hthree : 3 ≤ (pad 3 (intText sum)).length := by
      rw [pad, List.length_append, List.length_replicate]
      omega
    have hsplit : checked (natText payload.length) payload ++
        trailer (pad 3 (intText sum)) ++ rest =
        checked (natText payload.length) payload ++
          ("10=".toList ++ (pad 3 (intText sum) ++ soh :: rest)) := by
      simp [trailer]
    rw [hsplit, checked_append, extractNextFrame_checked (isNumber_natText _) (by omega),
      ← checked_append, extractBody_malformed hbefore hthree (parseUnsigned_neg hneg _) (by omega)]
      at h
    simp at h
  · intro h
    have hlt := checksum_lt (checked (natText payload.length) payload)
    rw [checksum_of_sumsUp h, intText_natCast] at hlength ⊢
    refine ValidFrame.extracts ?_ (by rw [List.length_append]; omega) rest
    exact .mk (isNumber_natText _) (length_pad_natText hlt) (isNumber_pad hlt)

theorem extractNextFrame_buildMessage_iff_sample :
    extractNextFrame (buildMessage "A".toList "B".toList 1 ['0'] [] 0 ++ "rest".toList) =
      some (.complete (buildMessage "A".toList "B".toList 1 ['0'] [] 0).length
        (buildMessage "A".toList "B".toList 1 ['0'] [] 0)) :=
  (extractNextFrame_buildMessage_iff (by decide +kernel) "rest".toList).mpr (by decide +kernel)

/-- Text in letters of several bytes is negative almost throughout. -/
theorem highBytes_malformed : ¬∀ (senderCompId targetCompId msgType bodyStr : Message)
    (msgSeqNum : UInt32) (now : Timestamp) (rest : Message),
    (buildMessage senderCompId targetCompId msgSeqNum msgType bodyStr now).length < 2 ^ 24 →
    extractNextFrame (buildMessage senderCompId targetCompId msgSeqNum msgType bodyStr now ++
        rest) =
      some (.complete
        (buildMessage senderCompId targetCompId msgSeqNum msgType bodyStr now).length
        (buildMessage senderCompId targetCompId msgSeqNum msgType bodyStr now)) := by
  intro h
  have hbuilt := h "A".toList "B".toList ['5'] (List.replicate 60 (Char.ofNat 176)) 1 0 []
    (by decide +kernel)
  revert hbuilt
  decide +kernel

end FixMessageFramer

end BetaTrader
