import BetaTrader.Common.FixUtils

/-!
# Building messages

`fix::OutboundMessageBuilder`, on a target where `char` is signed.
-/

namespace BetaTrader

namespace OutboundMessageBuilder

open Decimal

/-- `YYYYMMDD-HH:MM:SS.mmm`; the casts to seconds and milliseconds truncate. -/
def generateTimestamp (now : Timestamp) : Message :=
  let bt := Calendar.gmtime (now.tdiv 1000000000)
  let ms := (now.tdiv 1000000).tmod 1000
  intText bt.year ++ pad 2 (intText bt.month) ++ pad 2 (intText bt.day) ++ '-' ::
    (pad 2 (intText bt.hour) ++ ':' :: (pad 2 (intText bt.minute) ++ ':' ::
      (pad 2 (intText bt.second) ++ '.' :: pad 3 (intText ms))))

/-- The value of a `char`. -/
def charValue (c : Char) : ℤ := if c.toNat < 128 then c.toNat else c.toNat - 256

/-- `std::accumulate` over the characters, with the remainder of C. -/
def checksum (s : Message) : ℤ := (s.map charValue).sum.tmod 256

def buildMessage (senderCompId targetCompId : Message) (msgSeqNum : UInt32) (msgType : Message)
    (bodyStr : Message) (now : Timestamp) : Message :=
  let payload := Text.close soh [
    FixUtils.field Tag.msgType.number msgType,
    FixUtils.field Tag.senderCompID.number senderCompId,
    FixUtils.field Tag.targetCompID.number targetCompId,
    FixUtils.field Tag.msgSeqNum.number (natText msgSeqNum.toNat),
    FixUtils.field Tag.sendingTime.number (generateTimestamp now)] ++ bodyStr
  let msgBeforeChecksum := Text.close soh [
    FixUtils.field Tag.beginString.number "FIX.4.4".toList,
    FixUtils.field Tag.bodyLength.number (natText payload.length)] ++ payload
  msgBeforeChecksum ++ Text.close soh [
    FixUtils.field Tag.checkSum.number (pad 3 (intText (checksum msgBeforeChecksum)))]

def buildLogon (senderCompId targetCompId : Message) (msgSeqNum : UInt32)
    (heartbeatInterval : ℤ) (now : Timestamp) : Message :=
  buildMessage senderCompId targetCompId msgSeqNum ['A']
    (Text.close soh [FixUtils.field 98 ['0'], FixUtils.field 108 (intText heartbeatInterval)]) now

def buildLogout (senderCompId targetCompId : Message) (msgSeqNum : UInt32) (text : Message)
    (now : Timestamp) : Message :=
  buildMessage senderCompId targetCompId msgSeqNum ['5']
    (if text = [] then [] else Text.close soh [FixUtils.field Tag.text.number text]) now

def buildHeartbeat (senderCompId targetCompId : Message) (msgSeqNum : UInt32)
    (testReqId : Message) (now : Timestamp) : Message :=
  buildMessage senderCompId targetCompId msgSeqNum ['0']
    (if testReqId = [] then [] else Text.close soh [FixUtils.field 112 testReqId]) now

/-! ## Lists of fields -/

/-- A message out of its fields. -/
def ofFields (fields : List (ℕ × Message)) : Message :=
  Text.close soh (fields.map fun f => FixUtils.field f.1 f.2)

theorem ofFields_append (fields fields' : List (ℕ × Message)) :
    ofFields (fields ++ fields') = ofFields fields ++ ofFields fields' := by
  simp [ofFields]

@[simp] theorem ofFields_nil : ofFields [] = [] := rfl

@[simp] theorem ofFields_cons (tag : ℕ) (value : Message) (fields : List (ℕ × Message)) :
    ofFields ((tag, value) :: fields) = FixUtils.field tag value ++ soh :: ofFields fields := by
  simp [ofFields]

/-- Every field is closed by a separator. -/
theorem exists_ofFields_eq {fields : List (ℕ × Message)} (h : fields ≠ []) :
    ∃ s, ofFields fields = s ++ [soh] := by
  obtain ⟨init, last, rfl⟩ := fields.eq_nil_or_concat'.resolve_left h
  exact ⟨ofFields init ++ FixUtils.field last.1 last.2, by simp [ofFields]⟩

end OutboundMessageBuilder

end BetaTrader
