import BetaTrader.Common.OutboundMessageBuilder
import BetaTrader.Common.Wire
import BetaTrader.Exchange.FramingSpec
import BetaTrader.Exchange.OrderRequestConverter

/-!
# Messages that are built are read

A message of `OutboundMessageBuilder` is a list of fields.  When its texts are
plain, the framer finds it in the buffer, the converter accepts its checksum, and
`splitToMap` finds its fields.
-/

namespace BetaTrader

open Decimal

/-- Characters of seven bits, and no separator. -/
def Plain (text : Message) : Prop := ∀ c ∈ text, c ≠ soh ∧ c.toNat < 128

namespace Plain

variable {s t : Message} {c : Char}

theorem nil : Plain [] := by simp [Plain]

theorem cons (hc : c ≠ soh ∧ c.toNat < 128) (h : Plain s) : Plain (c :: s) :=
  List.forall_mem_cons.mpr ⟨hc, h⟩

theorem append (hs : Plain s) (ht : Plain t) : Plain (s ++ t) :=
  List.forall_mem_append.mpr ⟨hs, ht⟩

theorem of_all (h : s.all fun c => c ≠ soh ∧ c.toNat < 128) : Plain s := by
  intro c hc
  exact of_decide_eq_true (List.all_eq_true.mp h c hc)

theorem soh_notMem (h : Plain s) : soh ∉ s := fun hmem => (h soh hmem).1 rfl

theorem of_isDigit (h : ∀ c ∈ s, c.isDigit = true) : Plain s := by
  intro c hc
  have hdigit := h c hc
  simp only [Char.isDigit, Bool.and_eq_true, decide_eq_true_eq] at hdigit
  have h48 : 48 ≤ c.toNat := hdigit.1
  have h57 : c.toNat ≤ 57 := hdigit.2
  refine ⟨fun heq => ?_, by omega⟩
  rw [heq] at h48
  exact absurd h48 (by decide)

theorem natText (n : ℕ) : Plain (natText n) := of_isDigit fun _ => isDigit_of_mem_natText

theorem intText (n : ℤ) : Plain (intText n) := by
  unfold Decimal.intText
  split_ifs
  · exact cons (by decide) (natText _)
  · exact natText _

theorem pad {width : ℕ} (h : Plain s) : Plain (pad width s) := by
  refine append (fun c hc => ?_) h
  rw [List.eq_of_mem_replicate hc]
  decide

theorem fixedText (digits : ℕ) (x : Double) : Plain (fixedText digits x) := by
  cases x with
  | finite x =>
      have htext (m k : ℕ) :
          Plain (Decimal.natText m ++ '.' :: Decimal.pad digits (Decimal.natText k)) :=
        (natText m).append (cons (by decide) (natText k).pad)
      simp only [Decimal.fixedText]
      split_ifs
      · exact cons (by decide) (htext _ _)
      · exact htext _ _
  | posInf => simp [Decimal.fixedText, Plain, soh]
  | negInf => simp [Decimal.fixedText, Plain, soh]
  | nan => simp [Decimal.fixedText, Plain, soh]

theorem symbol {s : Message} {symbol : Instrument} (h : Instrument.fromString s = some symbol) :
    Plain s := by
  rw [Instrument.name_of_fromString h]
  cases symbol <;> exact of_all (by decide)

theorem generateTimestamp (now : Timestamp) :
    Plain (OutboundMessageBuilder.generateTimestamp now) := by
  unfold OutboundMessageBuilder.generateTimestamp
  have hpad (width : ℕ) (n : ℤ) : Plain (Decimal.pad width (Decimal.intText n)) :=
    (intText n).pad
  exact ((intText _).append (hpad 2 _)).append (hpad 2 _) |>.append (cons (by decide)
    ((hpad 2 _).append (cons (by decide) ((hpad 2 _).append (cons (by decide)
      ((hpad 2 _).append (cons (by decide) (hpad 3 _))))))))

end Plain

namespace OutboundMessageBuilder

/-- What `buildMessage` puts between BodyLength and CheckSum. -/
def payloadFields (senderCompId targetCompId : Message) (msgSeqNum : UInt32) (msgType : Message)
    (body : List (ℕ × Message)) (now : Timestamp) : List (ℕ × Message) :=
  [(35, msgType), (49, senderCompId), (56, targetCompId), (34, natText msgSeqNum.toNat),
    (52, generateTimestamp now)] ++ body

/-- The fields before the checksum. -/
def checkedFields (payload : List (ℕ × Message)) : List (ℕ × Message) :=
  [(8, "FIX.4.4".toList), (9, natText (ofFields payload).length)] ++ payload

/-- All fields of a message with a payload. -/
def messageFields (payload : List (ℕ × Message)) : List (ℕ × Message) :=
  checkedFields payload ++
    [(10, pad 3 (natText (FixMessageFramer.checksum (ofFields (checkedFields payload)))))]

theorem sum_charValue {s : Message} (h : ∀ c ∈ s, c.toNat < 128) :
    (s.map charValue).sum = ((s.map Char.toNat).sum : ℤ) := by
  induction s with
  | nil => rfl
  | cons c s ih =>
      rw [List.map_cons, List.sum_cons, ih fun d hd => h d (List.mem_cons_of_mem c hd), charValue,
        if_pos (h c (by simp)), List.map_cons, List.sum_cons, Nat.cast_add]

/-- With seven bits the signs of the characters do not matter. -/
theorem checksum_eq {s : Message} (h : ∀ c ∈ s, c.toNat < 128) :
    checksum s = FixMessageFramer.checksum s := by
  rw [checksum, sum_charValue h]
  exact (Int.ofNat_tmod _ 256).symm

/-- The texts of the fields are plain. -/
def PlainFields (fields : List (ℕ × Message)) : Prop := ∀ f ∈ fields, Plain f.2

theorem lt_of_mem_ofFields {fields : List (ℕ × Message)} (h : PlainFields fields) :
    ∀ c ∈ ofFields fields, c.toNat < 128 := by
  intro c hc
  obtain ⟨text, htext, hc⟩ := List.mem_flatMap.mp hc
  obtain ⟨f, hf, rfl⟩ := List.mem_map.mp htext
  have hfield : Plain (FixUtils.field f.1 f.2) := (Plain.natText f.1).append
    (Plain.cons (by decide) (h f hf))
  rcases List.mem_append.mp hc with hc | hc
  · exact (hfield c hc).2
  · rw [List.mem_singleton.mp hc]
    decide

theorem plain_checkedFields {payload : List (ℕ × Message)} (h : PlainFields payload) :
    PlainFields (checkedFields payload) := by
  intro f hf
  rcases List.mem_append.mp hf with hf | hf
  · rcases List.mem_pair.mp hf with rfl | rfl
    · exact Plain.of_all (by decide)
    · exact Plain.natText _
  · exact h f hf

theorem plain_messageFields {payload : List (ℕ × Message)} (h : PlainFields payload) :
    PlainFields (messageFields payload) := by
  intro f hf
  rcases List.mem_append.mp hf with hf | hf
  · exact plain_checkedFields h f hf
  · rw [List.mem_singleton.mp hf]
    exact (Plain.natText _).pad

/-- The fields of a message, whatever is in them. -/
theorem buildMessage_eq_ofFields (senderCompId targetCompId msgType : Message)
    (msgSeqNum : UInt32) (body : List (ℕ × Message)) (now : Timestamp) :
    buildMessage senderCompId targetCompId msgSeqNum msgType (ofFields body) now =
      ofFields (checkedFields (payloadFields senderCompId targetCompId msgSeqNum msgType body now) ++
        [(10, pad 3 (intText (checksum (ofFields (checkedFields
          (payloadFields senderCompId targetCompId msgSeqNum msgType body now))))))]) := by
  have hpayload : ofFields (payloadFields senderCompId targetCompId msgSeqNum msgType body now) =
      Text.close soh [FixUtils.field 35 msgType, FixUtils.field 49 senderCompId,
        FixUtils.field 56 targetCompId, FixUtils.field 34 (natText msgSeqNum.toNat),
        FixUtils.field 52 (generateTimestamp now)] ++ ofFields body := by
    rw [payloadFields, ofFields_append]
    rfl
  have hchecked : ofFields (checkedFields
      (payloadFields senderCompId targetCompId msgSeqNum msgType body now)) =
      Text.close soh [FixUtils.field 8 "FIX.4.4".toList, FixUtils.field 9 (natText
        (ofFields (payloadFields senderCompId targetCompId msgSeqNum msgType body now)).length)] ++
        ofFields (payloadFields senderCompId targetCompId msgSeqNum msgType body now) := by
    rw [checkedFields, ofFields_append]
    rfl
  rw [ofFields_append, hchecked, hpayload]
  rfl

theorem buildMessage_eq {senderCompId targetCompId msgType : Message} (msgSeqNum : UInt32)
    {body : List (ℕ × Message)} (now : Timestamp)
    (h : PlainFields (payloadFields senderCompId targetCompId msgSeqNum msgType body now)) :
    buildMessage senderCompId targetCompId msgSeqNum msgType (ofFields body) now =
      ofFields (messageFields
        (payloadFields senderCompId targetCompId msgSeqNum msgType body now)) := by
  have hchecksum := checksum_eq (lt_of_mem_ofFields (plain_checkedFields h))
  rw [buildMessage_eq_ofFields, hchecksum, intText_natCast, messageFields]

end OutboundMessageBuilder

namespace FixMessageFramer

open OutboundMessageBuilder

/-- The parts of a message that the framer looks at. -/
theorem ofFields_messageFields (payload : List (ℕ × Message)) :
    ofFields (messageFields payload) = ofFields (checkedFields payload) ++ ("10=".toList ++
      (pad 3 (natText (checksum (ofFields (checkedFields payload)))) ++ [soh])) := by
  have htag : natText 10 = ['1', '0'] := rfl
  rw [messageFields, ofFields_append]
  simp [ofFields, FixUtils.field, htag]

theorem ofFields_checkedFields (payload : List (ℕ × Message)) :
    ofFields (checkedFields payload) =
      checked (natText (ofFields payload).length) (ofFields payload) := by
  have htags : natText 8 = ['8'] ∧ natText 9 = ['9'] := ⟨rfl, rfl⟩
  rw [checkedFields, ofFields_append, checked]
  simp [ofFields, FixUtils.field, htags]

theorem validFrame_ofFields (payload : List (ℕ × Message)) :
    ValidFrame (ofFields (messageFields payload)) := by
  have hlt := checksum_lt (ofFields (checkedFields payload))
  have hchecksum := isNumber_pad hlt
  rw [ofFields_messageFields, ofFields_checkedFields]
  rw [ofFields_checkedFields] at hlt hchecksum
  exact .mk (isNumber_natText _) (length_pad_natText hlt) hchecksum

end FixMessageFramer

open OutboundMessageBuilder

/-- The converter finds the checksum of the builder. -/
theorem BinaryToOrderRequestConverter.checkChecksum_ofFields (payload : List (ℕ × Message)) :
    checkChecksum (ofFields (messageFields payload)) = some () := by
  have hlt := FixMessageFramer.checksum_lt (ofFields (checkedFields payload))
  have hne : checkedFields payload ≠ [] := by simp [checkedFields]
  have hdigit : ∀ c ∈ pad 3 (natText (FixMessageFramer.checksum
      (ofFields (checkedFields payload)))), c.isDigit = true := fun _ => isDigit_of_mem_pad
  obtain ⟨before, hbefore, hsplit⟩ := Wire.splitLast_trailer hne hdigit
  have htag : soh :: natText Tag.checkSum.number ++ ['='] = soh :: "10=".toList := rfl
  rw [checkChecksum, htag, messageFields, hsplit, Option.bind_eq_bind, Option.bind_some]
  dsimp only
  rw [Wire.stoi_pad hlt, Option.bind_eq_bind, Option.bind_some, ← hbefore]
  exact if_pos rfl

/-! ## Fields that are read -/

/-- The last value of a tag among fields. -/
def lastValue (fields : List (ℕ × Message)) (tag : ℕ) : Option Message :=
  (fields.reverse.find? fun f => f.1 = tag).map Prod.snd

theorem FixUtils.splitToMap_ofFields {fields : List (ℕ × Message)} (h : PlainFields fields)
    (htags : ∀ f ∈ fields, f.1 < 2 ^ 31) : ∃ map : TagMap,
      splitToMap (ofFields fields) soh = some map ∧
        ∀ tag : Tag, map.get tag = lastValue fields tag.number := by
  refine ⟨_, splitToMap_close htags fun f hf => (h f hf).soh_notMem, fun tag => ?_⟩
  rw [TagMap.get, lastValue, List.foldl_eq_foldr_reverse]
  generalize fields.reverse = fields'
  induction fields' with
  | nil => rfl
  | cons f fields' ih =>
      rw [List.foldr_cons, List.find?_cons]
      by_cases htag : f.1 = tag.number
      · rw [htag, FixUtils.insert_self]
        simp
      · rw [FixUtils.insert_of_ne _ (by exact_mod_cast Ne.symm htag), ih]
        simp [htag]

end BetaTrader
