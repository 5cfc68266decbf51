import BetaTrader.Common.Wire
import BetaTrader.Exchange.BuiltMessage
import BetaTrader.Exchange.SessionSpec

/-!
# What the session finds in a header

The session looks for `34=` and `49=` in the text of a message and takes the first
that it finds, and for the type in the map of the fields.
-/

namespace BetaTrader

namespace OutboundMessageBuilder

open Decimal FixUtils

variable {senderCompId targetCompId msgType bodyStr : Message} {msgSeqNum : UInt32}
  {now : Timestamp}

/-- A text of three characters that ends with `=` is not in the field BodyLength. -/
theorem not_isInfix_bodyLength (c d : Char) (n : ℕ) : ¬[c, d, '='] <:+: field 9 (natText n) := by
  have hdigits : '=' ∉ natText n := notMem_natText (by decide) n
  have hnine : field 9 (natText n) = '9' :: '=' :: natText n := rfl
  rw [hnine]
  rintro ⟨u, v, huv⟩
  -- the only `=` is the second character
  cases u with
  | nil =>
      simp only [List.nil_append, List.cons_append, List.cons.injEq] at huv
      exact hdigits (by simp [← huv.2.2])
  | cons c u =>
      cases u with
      | nil =>
          simp only [List.nil_append, List.cons_append, List.cons.injEq] at huv
          exact hdigits (by simp [← huv.2.2])
      | cons d u =>
          simp only [List.cons_append, List.cons.injEq] at huv
          exact hdigits (by simp [← huv.2.2])

/-- The fields of the header that the session looks at, and those before them. -/
theorem buildMessage_header (senderCompId targetCompId : Message) (msgSeqNum : UInt32)
    (msgType bodyStr : Message) (now : Timestamp) : ∃ n rest,
    buildMessage senderCompId targetCompId msgSeqNum msgType bodyStr now =
      field 8 "FIX.4.4".toList ++ soh :: (field 9 (natText n) ++ soh ::
        (field 35 msgType ++ soh :: (field 49 senderCompId ++ soh ::
          (field 56 targetCompId ++ soh ::
            (field 34 (natText msgSeqNum.toNat) ++ soh :: rest))))) := by
  simp only [buildMessage, Text.close, List.flatMap_cons, List.flatMap_nil, List.append_assoc,
    List.cons_append, List.nil_append, List.append_nil]
  exact ⟨_, _, rfl⟩

/-- Neither CompID leads the session astray. -/
structure ReadableIds (senderCompId targetCompId : Message) : Prop where
  sender : soh ∉ senderCompId
  target : soh ∉ targetCompId
  senderNumber : ¬"34=".toList <:+: field 49 senderCompId
  targetNumber : ¬"34=".toList <:+: field 56 targetCompId

/-- Nor does the type of the message. -/
structure ReadableType (msgType : Message) : Prop where
  soh : soh ∉ msgType
  number : ¬"34=".toList <:+: field 35 msgType
  sender : ¬"49=".toList <:+: field 35 msgType

theorem readableType_singleton {c : Char} (h : c ∈ ['A', '0', '5']) : ReadableType [c] := by
  simp only [List.mem_cons, List.not_mem_nil, or_false] at h
  rcases h with rfl | rfl | rfl <;> exact ⟨by decide, by decide, by decide⟩

theorem msgSeqNum_buildMessage (hids : ReadableIds senderCompId targetCompId)
    (htype : ReadableType msgType) (bodyStr : Message) (now : Timestamp) :
    FixSession.msgSeqNum (buildMessage senderCompId targetCompId msgSeqNum msgType bodyStr now) =
      some msgSeqNum := by
  have hsep : BetaTrader.soh ∉ "34=".toList := by decide
  have h8 : ¬"34=".toList <:+: field 8 "FIX.4.4".toList := by decide
  obtain ⟨n, rest, heq⟩ :=
    buildMessage_header senderCompId targetCompId msgSeqNum msgType bodyStr now
  have hfield : field 34 (natText msgSeqNum.toNat) = "34=".toList ++ natText msgSeqNum.toNat := rfl
  have hdigits : BetaTrader.soh ∉ natText msgSeqNum.toNat := notMem_natText (by decide) _
  have hlt : msgSeqNum.toNat < 2 ^ 64 := msgSeqNum.toNat_lt.trans (by decide)
  have hvalue : Text.between "34=".toList BetaTrader.soh (buildMessage senderCompId targetCompId
      msgSeqNum msgType bodyStr now) = some (natText msgSeqNum.toNat) := by
    rw [heq, Text.between_skip hsep h8, Text.between_skip hsep (not_isInfix_bodyLength _ _ n),
      Text.between_skip hsep htype.number, Text.between_skip hsep hids.senderNumber,
      Text.between_skip hsep hids.targetNumber, Text.between, hfield, List.append_assoc,
      Text.afterFirst_append_self (by decide), Option.bind_some, if_pos (by simp),
      Text.takeWhile_ne_append hdigits]
  rw [FixSession.msgSeqNum, hvalue]
  dsimp only
  rw [stoul_natText hlt, Option.map_some, UInt32.ofNat_toNat]

theorem senderCompId_buildMessage (hsender : soh ∉ senderCompId) (htype : ReadableType msgType)
    (targetCompId bodyStr : Message) (msgSeqNum : UInt32) (now : Timestamp) :
    FixSession.senderCompId (buildMessage senderCompId targetCompId msgSeqNum msgType bodyStr now) =
      senderCompId := by
  have hsep : BetaTrader.soh ∉ "49=".toList := by decide
  have h8 : ¬"49=".toList <:+: field 8 "FIX.4.4".toList := by decide
  obtain ⟨n, rest, heq⟩ :=
    buildMessage_header senderCompId targetCompId msgSeqNum msgType bodyStr now
  have hfield : field 49 senderCompId = "49=".toList ++ senderCompId := rfl
  rw [FixSession.senderCompId, heq, Text.between_skip hsep h8,
    Text.between_skip hsep (not_isInfix_bodyLength _ _ n), Text.between_skip hsep htype.sender,
    Text.between, hfield, List.append_assoc, Text.afterFirst_append_self (by decide),
    Option.bind_some, if_pos (by simp), Text.takeWhile_ne_append hsender, Option.getD_some]

/-- The type is that of the header, unless the body has a type of its own. -/
theorem msgType_buildMessage {c : Char} (hc : c ≠ soh) (hsender : soh ∉ senderCompId)
    (htarget : soh ∉ targetCompId) {body : List (ℕ × Message)}
    (hbody : ∀ f ∈ body, f.1 ≠ 35 ∧ f.1 < 2 ^ 31 ∧ soh ∉ f.2) (msgSeqNum : UInt32)
    (now : Timestamp) : FixSession.msgType
      (buildMessage senderCompId targetCompId msgSeqNum [c] (ofFields body) now) = some c := by
  rw [buildMessage_eq_ofFields, FixSession.msgType]
  generalize checksum _ = sum
  have hfields : checkedFields (payloadFields senderCompId targetCompId msgSeqNum [c] body now) ++
      [(10, pad 3 (intText sum))] = [(8, "FIX.4.4".toList), (9, natText (ofFields
        (payloadFields senderCompId targetCompId msgSeqNum [c] body now)).length)] ++ (35, [c]) ::
          ([(49, senderCompId), (56, targetCompId), (34, natText msgSeqNum.toNat),
            (52, generateTimestamp now)] ++ body ++ [(10, pad 3 (intText sum))]) := by
    simp [checkedFields, payloadFields]
  have hall : ∀ f ∈ [(8, "FIX.4.4".toList), (9, natText (ofFields
        (payloadFields senderCompId targetCompId msgSeqNum [c] body now)).length)] ++ (35, [c]) ::
          ([(49, senderCompId), (56, targetCompId), (34, natText msgSeqNum.toNat),
            (52, generateTimestamp now)] ++ body ++ [(10, pad 3 (intText sum))]),
      f.1 < 2 ^ 31 ∧ soh ∉ f.2 := by
    simp only [List.forall_mem_append, List.forall_mem_cons, List.not_mem_nil, false_imp_iff,
      implies_true, and_true]
    refine ⟨⟨⟨by decide, by decide⟩, by decide, (Plain.natText _).soh_notMem⟩,
      ⟨by decide, by simpa using hc.symm⟩, ⟨⟨⟨by decide, hsender⟩, ⟨by decide, htarget⟩,
        ⟨by decide, (Plain.natText _).soh_notMem⟩, by decide,
          (Plain.generateTimestamp now).soh_notMem⟩, fun f hf => (hbody f hf).2⟩,
      by decide, (Plain.intText sum).pad.soh_notMem⟩
  have hrest : 35 ∉ ([(49, senderCompId), (56, targetCompId), (34, natText msgSeqNum.toNat),
      (52, generateTimestamp now)] ++ body ++ [(10, pad 3 (intText sum))]).map Prod.fst := by
    simp only [List.map_append, List.mem_append, List.mem_map, not_or]
    refine ⟨⟨by simp, ?_⟩, by simp⟩
    rintro ⟨f, hf, heq⟩
    exact (hbody f hf).1 heq
  have hnumber : Tag.msgType.number = 35 := rfl
  rw [hfields, Wire.splitToMap_ofFields (fun f hf => (hall f hf).1) fun f hf => (hall f hf).2,
    Option.bind_some, TagMap.get, hnumber, Wire.mapOf_append_cons _ hrest]
  rfl

end OutboundMessageBuilder

end BetaTrader
