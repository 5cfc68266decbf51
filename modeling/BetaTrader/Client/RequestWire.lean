import BetaTrader.Client.FixClientSession
import BetaTrader.Exchange.BuiltMessage
import BetaTrader.Exchange.MarketDataRequests

/-!
# A market data request across the wire

The exchange looks for the parts of a request in the whole text of the message, from
the header on.  As long as the two ids in the header have no `=`, it finds those that
the client has written.
-/

namespace BetaTrader

open Decimal OutboundMessageBuilder

namespace FixClientSession

/-- The nanoseconds of the clock make the id. -/
def mdReqId (symbol : Message) (now : Timestamp) : Message :=
  "req_".toList ++ symbol ++ '_' :: intText now

def marketDataRequestFields (symbol : Message) (subscriptionRequestType : Char)
    (now : Timestamp) : List (ℕ × Message) :=
  [(262, mdReqId symbol now), (263, [subscriptionRequestType]), (264, ['0']), (267, ['2']),
    (269, ['0']), (269, ['1']), (146, ['1']), (55, symbol)]

/-- The clock is read for the id and for the header. -/
def sendMarketDataRequest (session : FixClientSession) (symbol : Message)
    (subscriptionRequestType : Char) (now sendingTime : Timestamp) :
    FixClientSession × List FixClientEffect :=
  session.sendMessage ['V'] (ofFields (marketDataRequestFields symbol subscriptionRequestType now))
    sendingTime

end FixClientSession

namespace BinaryToMarketDataRequestConverter

open FixUtils

variable {before after : List (ℕ × Message)} {tag : Tag} {value : Message}

theorem not_key_isInfix {f : ℕ × Message} (hvalue : '=' ∉ f.2)
    (htag : ¬natText tag.number <:+ natText f.1) : ¬key tag <:+: field f.1 f.2 :=
  Wire.not_isInfix_field hvalue (notMem_natText (by decide) _) htag

/-- A field is found if none before it looks like its key. -/
theorem search_ofFields (hbefore : ∀ f ∈ before, ¬key tag <:+: field f.1 f.2)
    (hvalue : soh ∉ value) : Text.search (key tag) soh
      (ofFields (before ++ (tag.number, value) :: after)) = some (value, ofFields after) := by
  have hkey : soh ∉ key tag := by
    rw [key, List.mem_append, not_or]
    exact ⟨(Plain.natText _).soh_notMem, by decide⟩
  have hfield : field tag.number value = key tag ++ value := by simp [field, key]
  rw [Text.search, ofFields_append, Wire.afterFirst_ofFields hkey hbefore, ofFields_cons, hfield,
    List.append_assoc, Text.afterFirst_append_self (by simp [key]), Option.bind_some,
    Text.splitFirst_append hvalue]

/-! ## The parts of the request -/

section Request

variable {senderCompId targetCompId : Message} {outSeq : UInt32} {symbol : Instrument}
  {type : Char} {now sendingTime : Timestamp}

/-- The two ids can stand in a header. -/
def PlainIds (senderCompId targetCompId : Message) : Prop :=
  Wire.Inert senderCompId ∧ Wire.Inert targetCompId

/-- The fields in front of the request. -/
def headFields (senderCompId targetCompId : Message) (outSeq : UInt32) (sendingTime : Timestamp)
    (request : List (ℕ × Message)) : List (ℕ × Message) :=
  let payload := payloadFields senderCompId targetCompId outSeq ['V'] request sendingTime
  [(8, "FIX.4.4".toList), (9, natText (ofFields payload).length),
    (35, ['V']), (49, senderCompId), (56, targetCompId), (34, natText outSeq.toNat),
    (52, generateTimestamp sendingTime)]

theorem exists_fields (request : List (ℕ × Message)) : ∃ digits,
    buildMessage senderCompId targetCompId outSeq ['V'] (ofFields request) sendingTime =
      ofFields (headFields senderCompId targetCompId outSeq sendingTime request ++
        (request ++ [(10, digits)])) := by
  exact ⟨_, buildMessage_eq_ofFields senderCompId targetCompId ['V'] outSeq request sendingTime⟩

theorem inert_mdReqId : Wire.Inert (FixClientSession.mdReqId symbol.name now) := by
  have hreq : Wire.Inert "req_".toList := ⟨by decide, by decide⟩
  exact (hreq.append (.name symbol)).append (.cons (by decide) (by decide) (.intText now))

/-- The fields up to the `n`th one of the request. -/
def leadFields (senderCompId targetCompId : Message) (outSeq : UInt32) (sendingTime : Timestamp)
    (request : List (ℕ × Message)) (n : ℕ) : List (ℕ × Message) :=
  headFields senderCompId targetCompId outSeq sendingTime request ++ request.take n

theorem leadFields_values (hids : PlainIds senderCompId targetCompId)
    (htype : Wire.Inert [type]) {n : ℕ} {f : ℕ × Message}
    (hf : f ∈ leadFields senderCompId targetCompId outSeq sendingTime
      (FixClientSession.marketDataRequestFields symbol.name type now) n) : Wire.Inert f.2 := by
  have hdigit (c : Char) (hc : c.isDigit = true) : Wire.Inert [c] :=
    .of_isDigit fun c' hc' => List.mem_singleton.mp hc' ▸ hc
  rcases List.mem_append.mp hf with hf | hf
  · simp only [headFields, List.mem_cons, List.not_mem_nil, or_false] at hf
    rcases hf with rfl | rfl | rfl | rfl | rfl | rfl | rfl
    · exact ⟨by decide, by decide⟩
    · exact .natText _
    · exact ⟨by decide, by decide⟩
    · exact hids.1
    · exact hids.2
    · exact .natText _
    · exact .generateTimestamp _
  · have hf := List.mem_of_mem_take hf
    simp only [FixClientSession.marketDataRequestFields, List.mem_cons, List.not_mem_nil,
      or_false] at hf
    rcases hf with rfl | rfl | rfl | rfl | rfl | rfl | rfl | rfl
    · exact inert_mdReqId
    · exact htype
    · exact hdigit '0' rfl
    · exact hdigit '2' rfl
    · exact hdigit '0' rfl
    · exact hdigit '1' rfl
    · exact hdigit '1' rfl
    · exact .name symbol

/-- No field in front of one of the request's looks like it. -/
theorem not_key_leadFields (hids : PlainIds senderCompId targetCompId)
    (htype : Wire.Inert [type]) {n : ℕ}
    (htags : ∀ t ∈ [8, 9, 35, 49, 56, 34, 52] ++ [262, 263, 264, 267, 269, 269, 146, 55].take n,
      ¬natText tag.number <:+ natText t) :
    ∀ f ∈ leadFields senderCompId targetCompId outSeq sendingTime
      (FixClientSession.marketDataRequestFields symbol.name type now) n,
      ¬key tag <:+: field f.1 f.2 := by
  intro f hf
  refine not_key_isInfix (leadFields_values hids htype hf).equals (htags f.1 ?_)
  have hmem := List.mem_map_of_mem (f := Prod.fst) hf
  rw [leadFields, List.map_append, List.map_take] at hmem
  exact hmem

variable (outSeq symbol now sendingTime) in
/-- Each field of the request is found where it has been written. -/
theorem search_request (hids : PlainIds senderCompId targetCompId) (htype : Wire.Inert [type]) :
    ∃ digits, ∀ n (tag : Tag) value after,
      (FixClientSession.marketDataRequestFields symbol.name type now).drop n =
        (tag.number, value) :: after →
      (∀ t ∈ [8, 9, 35, 49, 56, 34, 52] ++ [262, 263, 264, 267, 269, 269, 146, 55].take n,
        ¬natText tag.number <:+ natText t) → soh ∉ value →
      Text.search (key tag) soh (buildMessage senderCompId targetCompId outSeq ['V']
        (ofFields (FixClientSession.marketDataRequestFields symbol.name type now)) sendingTime) =
        some (value, ofFields (after ++ [(10, digits)])) := by
  obtain ⟨digits, hfields⟩ : ∃ digits, buildMessage senderCompId targetCompId outSeq ['V']
      (ofFields (FixClientSession.marketDataRequestFields symbol.name type now)) sendingTime =
        ofFields (headFields senderCompId targetCompId outSeq sendingTime
          (FixClientSession.marketDataRequestFields symbol.name type now) ++
          (FixClientSession.marketDataRequestFields symbol.name type now ++ [(10, digits)])) :=
    exists_fields _
  refine ⟨digits, fun n tag value after hdrop htags hvalue => ?_⟩
  have hsplit : headFields senderCompId targetCompId outSeq sendingTime
      (FixClientSession.marketDataRequestFields symbol.name type now) ++
        (FixClientSession.marketDataRequestFields symbol.name type now ++ [(10, digits)]) =
      leadFields senderCompId targetCompId outSeq sendingTime
        (FixClientSession.marketDataRequestFields symbol.name type now) n ++
          (tag.number, value) :: (after ++ [(10, digits)]) := by
    rw [leadFields, List.append_assoc, ← List.cons_append, ← hdrop,
      ← List.append_assoc (List.take _ _), List.take_append_drop]
  rw [hfields, hsplit]
  exact search_ofFields (not_key_leadFields hids htype htags) hvalue

variable (symbol type now) in
/-- The request as the exchange should read it. -/
def requested : MarketDataRequest where
  mdReqID := String.ofList (FixClientSession.mdReqId symbol.name now)
  subscriptionRequestType := some type
  marketDepth := some 0
  symbols := [symbol]

/-- The exchange reads the request that has been built. -/
theorem convert_buildMessage (hids : PlainIds senderCompId targetCompId)
    (htype : Wire.Inert [type]) :
    convert (buildMessage senderCompId targetCompId outSeq ['V']
      (ofFields (FixClientSession.marketDataRequestFields symbol.name type now)) sendingTime) =
      some (requested symbol type now) := by
  obtain ⟨digits, hsearch⟩ := search_request outSeq symbol now sendingTime hids htype
  have hid := hsearch 0 .mdReqID _ _ rfl (by decide) inert_mdReqId.soh
  have hkind := hsearch 1 .subscriptionRequestType _ _ rfl (by decide) htype.soh
  have hdepth := hsearch 2 .marketDepth _ _ rfl (by decide) (by decide)
  have hcount := hsearch 6 .noRelatedSym _ _ rfl (by decide) (by decide)
  have hsymbols : symbols 1 (ofFields ([(55, symbol.name)] ++ [(10, digits)])) =
      some [symbol] := by
    rw [ofFields_append]
    exact symbols_close [symbol] (ofFields [(10, digits)])
  rw [Text.search] at hcount
  rw [convert, marketDepth, relatedSymbols, hcount, Text.between_eq_map_search, hdepth,
    Text.between_eq_map_search, hid, Text.between_eq_map_search, hkind]
  simp only [Option.map_some, show Strtoul.fromChars ['0'] = some 0 from by decide,
    show Strtoul.fromChars ['1'] = some 1 from by decide, Option.bind_eq_bind, Option.bind_some,
    Int.toNat_one, hsymbols, Option.getD_some]
  rfl

end Request

/-- A session that is active writes one message for a request, under its next number,
and the exchange reads from it what has been asked for.  Any other session does nothing. -/
theorem convert_sendMarketDataRequest (session : FixClientSession)
    (hids : PlainIds session.senderCompId session.targetCompId) (symbol : Instrument) (type : Char)
    (htype : Wire.Inert [type]) (now sendingTime : Timestamp) :
    if session.state = .active then
      ∃ text, session.sendMarketDataRequest symbol.name type now sendingTime =
        ({ session with seqStore := { session.seqStore with
            outSeqNum := session.seqStore.outSeqNum + 1 } }, [.doWrite text]) ∧
        convert text = some (requested symbol type now)
    else session.sendMarketDataRequest symbol.name type now sendingTime = (session, []) := by
  rw [FixClientSession.sendMarketDataRequest, FixClientSession.sendMessage]
  split_ifs with hactive
  · contradiction
  · exact ⟨_, rfl, convert_buildMessage hids htype⟩
  · rfl

/-- `C1` asks for the updates of GBPUSD. -/
theorem convert_sendMarketDataRequest_sample :
    ∃ text, (FixClientSession.mk "C1".toList "EX".toList .active ⟨4, 7⟩ false).sendMarketDataRequest
        Instrument.gbpusd.name '1' 12 34 =
      (FixClientSession.mk "C1".toList "EX".toList .active ⟨4, 8⟩ false, [.doWrite text]) ∧
      convert text = some (requested .gbpusd '1' 12) := by
  have hids : PlainIds "C1".toList "EX".toList :=
    ⟨⟨by decide, by decide⟩, ⟨by decide, by decide⟩⟩
  exact convert_sendMarketDataRequest (FixClientSession.mk "C1".toList "EX".toList .active ⟨4, 7⟩
    false) hids .gbpusd '1' ⟨by decide, by decide⟩ 12 34

end BinaryToMarketDataRequestConverter

end BetaTrader
