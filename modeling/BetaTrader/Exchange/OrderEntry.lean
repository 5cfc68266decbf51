import BetaTrader.Client.FixClientSession
import BetaTrader.Client.OrderTicket
import BetaTrader.Exchange.HeaderText
import BetaTrader.Exchange.ReadLoop
import BetaTrader.Exchange.SenderIdentity

/-!
# Order entry from end to end

What becomes of a ticket that the client sends: the message of `sendNewOrder`,
the frame that the gateway finds, the request, and the command.  The gateway
reads neither the order type nor the time in force, and makes a day limit order
of every request; so the tickets for day limit orders are those that arrive as
they were meant.
-/

namespace BetaTrader

open OutboundMessageBuilder

/-- The options of the order entry panel. -/
def charToTimeInForce (c : Char) : Option TimeInForce :=
  if c = '0' then some .day
  else if c = '1' then some .gtc
  else if c = '3' then some .ioc
  else if c = '4' then some .fok
  else none

/-- The order is the one that the ticket describes. -/
structure OrderTicket.Describes (ticket : OrderTicket) (order : Order Double) : Prop where
  symbol : Instrument.fromString ticket.symbol.toList = some order.symbol
  side : FixUtils.charToOrderSide ticket.side = some order.side
  quantity : (order.originalQuantity.toNat : ℤ) = ticket.quantity.toInt
  orderType : FixUtils.charToOrderType ticket.orderType = some order.orderType
  timeInForce : charToTimeInForce ticket.timeInForce = some order.timeInForce
  price : ticket.orderType = '2' → order.price = ticket.price

/-- A limit price has at most five decimals, and is one that a `double` has. -/
def OrderTicket.FiveDecimals (ticket : OrderTicket) : Prop :=
  ticket.orderType = '2' → ∃ n : ℕ, ticket.price = .finite (n / 10 ^ 5) ∧
    (n : ℚ) / 10 ^ 5 < 2 ^ 1024 - 2 ^ 970

/-- The CompIDs of a session are texts of FIX. -/
structure FixClientSession.PlainIds (session : FixClientSession) : Prop where
  sender : Plain session.senderCompId
  target : Plain session.targetCompId

/-- What the gateway takes for the sequence number, should it find `34=` in a
CompID already, is a number. -/
def FixClientSession.SeqNumReadable (session : FixClientSession) : Prop :=
  ∀ value, Text.between "34=".toList soh
      (ofFields [(49, session.senderCompId), (56, session.targetCompId)]) = some value →
    (Strtoul.stoul (String.ofList value)).isSome

/-- `sendNewOrder` for a ticket, as the panel calls it. -/
def FixClientSession.sendTicket (session : FixClientSession) (ticket : OrderTicket)
    (now transactTime sendingTime : Timestamp) : FixClientSession × List FixClientEffect :=
  session.sendNewOrder ticket.symbol ticket.side ticket.price ticket.quantity ticket.orderType
    ticket.timeInForce now transactTime sendingTime

namespace FixClientSession

/-- The fields that are sent for a ticket. -/
def ticketFields (session : FixClientSession) (ticket : OrderTicket)
    (now transactTime sendingTime : Timestamp) : List (ℕ × Message) :=
  payloadFields session.senderCompId session.targetCompId session.seqStore.outSeqNum ['D']
    (orderFields ticket.symbol ticket.side ticket.price ticket.quantity ticket.orderType
      ticket.timeInForce now transactTime) sendingTime

variable {session : FixClientSession} {ticket : OrderTicket}
  {now transactTime sendingTime : Timestamp}

theorem plain_ticketFields (hids : session.PlainIds) (hticket : ticket.Valid)
    (now transactTime sendingTime : Timestamp) :
    PlainFields (session.ticketFields ticket now transactTime sendingTime) := by
  have hchar {c : Char} {cs : List Char} (hcs : Plain cs) (hc : c ∈ cs) : Plain [c] :=
    Plain.cons (hcs c hc) Plain.nil
  have hside : ticket.side ∈ ['1', '2'] := by simpa using hticket.side
  have htype : ticket.orderType ∈ ['1', '2'] := by simpa using hticket.orderType
  obtain ⟨symbol, hsymbol⟩ := hticket.symbol
  unfold ticketFields payloadFields orderFields PlainFields
  simp only [List.forall_mem_append, List.forall_mem_cons, List.not_mem_nil, false_imp_iff,
    implies_true, and_true]
  refine ⟨⟨Plain.of_all (by decide), hids.sender, hids.target,
    Plain.natText _, Plain.generateTimestamp _⟩, ⟨⟨Plain.intText _, Plain.symbol hsymbol,
    hchar (Plain.of_all (by decide)) hside, Plain.generateTimestamp _, Plain.intText _,
    hchar (Plain.of_all (by decide)) htype⟩, ?_⟩, ?_⟩
  · split_ifs
    · simpa using Plain.fixedText 5 ticket.price
    · simp
  · split_ifs
    · simpa using hchar (Plain.of_all (by decide)) hticket.timeInForce
    · simp

/-- One message is written, and it has the fields of the ticket. -/
theorem messages_sendTicket (hactive : session.state = .active) (hids : session.PlainIds)
    (hticket : ticket.Valid) :
    FixClientEffect.messages (session.sendTicket ticket now transactTime sendingTime).2 =
      [ofFields (messageFields (session.ticketFields ticket now transactTime sendingTime))] := by
  have heq := buildMessage_eq session.seqStore.outSeqNum sendingTime
    (plain_ticketFields hids hticket now transactTime sendingTime)
  rw [ticketFields, ← heq]
  simp only [sendTicket, sendNewOrder, sendMessage, hactive]
  cases session.hasOrderIntentCallback with
  | true => rfl
  | false => rfl

/-! ## The sequence number -/

/-- The gateway reads a sequence number unless a CompID keeps it from it. -/
theorem msgSeqNum_isSome_iff (hids : session.PlainIds) :
    (FixSession.msgSeqNum (ofFields (messageFields
      (session.ticketFields ticket now transactTime sendingTime)))).isSome ↔
      session.SeqNumReadable := by
  have hsep : soh ∉ "34=".toList := by decide
  have hcons (tag : ℕ) (value : Message) (fields : List (ℕ × Message)) :
      ofFields ((tag, value) :: fields) = FixUtils.field tag value ++ soh :: ofFields fields := by
    simp [ofFields]
  have h8 : ¬"34=".toList <:+: FixUtils.field 8 "FIX.4.4".toList := by decide
  have h35 : ¬"34=".toList <:+: FixUtils.field 35 ['D'] := by decide
  unfold FixSession.msgSeqNum SeqNumReadable messageFields checkedFields ticketFields payloadFields
  simp only [List.cons_append, List.nil_append, hcons]
  rw [Text.between_skip hsep h8, Text.between_skip hsep (not_isInfix_bodyLength _ _ _),
    Text.between_skip hsep h35]
  by_cases h49 : "34=".toList <:+: FixUtils.field 49 session.senderCompId
  · obtain ⟨value, hvalue⟩ := Text.between_of_isInfix hsep
      (FixUtils.soh_notMem_field hids.sender.soh_notMem) h49
    simp only [hvalue, Option.isSome_map, Option.some.injEq, forall_eq']
  rw [Text.between_skip hsep h49, Text.between_skip hsep h49]
  by_cases h56 : "34=".toList <:+: FixUtils.field 56 session.targetCompId
  · obtain ⟨value, hvalue⟩ := Text.between_of_isInfix hsep
      (FixUtils.soh_notMem_field hids.target.soh_notMem) h56
    simp only [hvalue, Option.isSome_map, Option.some.injEq, forall_eq']
  rw [Text.between_skip hsep h56, Text.between_skip hsep h56]
  have hnone : Text.between "34=".toList soh (ofFields []) = none := rfl
  have hfield : FixUtils.field 34 (Decimal.natText session.seqStore.outSeqNum.toNat) =
      "34=".toList ++ Decimal.natText session.seqStore.outSeqNum.toNat := rfl
  have hlt : session.seqStore.outSeqNum.toNat < 2 ^ 64 :=
    session.seqStore.outSeqNum.toNat_lt.trans (by decide)
  rw [hnone, Text.between, hfield, List.append_assoc, Text.afterFirst_append_self (by decide),
    Option.bind_some, if_pos (by simp),
    Text.takeWhile_ne_append (Plain.natText session.seqStore.outSeqNum.toNat).soh_notMem]
  simp [Decimal.stoul_natText hlt]

/-! ## The request -/

theorem inRange_fiveDecimals {n : ℕ} (hpos : (0 : ℚ) < n / 10 ^ 5)
    (hlt : (n : ℚ) / 10 ^ 5 < 2 ^ 1024 - 2 ^ 970) : Double.inRange ((n : ℚ) / 10 ^ 5) = true := by
  have hn : (1 : ℚ) ≤ n := by
    rcases Nat.eq_zero_or_pos n with rfl | hn
    · simp at hpos
    · exact_mod_cast hn
  have hnormal : (1 : ℚ) / 2 ^ 1022 - 1 / 2 ^ 1076 ≤ n / 10 ^ 5 := by
    have hsmall : (1 : ℚ) / 2 ^ 1022 - 1 / 2 ^ 1076 ≤ 1 / 10 ^ 5 := by decide +kernel
    exact hsmall.trans (div_le_div_of_nonneg_right hn (by positivity))
  simp only [Double.inRange, Bool.and_eq_true, Bool.or_eq_true, decide_eq_true_eq]
  exact ⟨hlt, Or.inl (Or.inr hnormal)⟩

theorem tags_ticketFields (session : FixClientSession) (ticket : OrderTicket)
    (now transactTime sendingTime : Timestamp) : ∀ f ∈ messageFields
    (session.ticketFields ticket now transactTime sendingTime), f.1 < 2 ^ 31 := by
  unfold messageFields checkedFields ticketFields payloadFields orderFields
  simp only [List.forall_mem_append, List.forall_mem_cons, List.not_mem_nil, false_imp_iff,
    implies_true, and_true]
  refine ⟨⟨by decide, by decide, ⟨by decide, ?_⟩, ?_⟩, by decide⟩
  · split_ifs <;> simp
  · split_ifs <;> simp

/-- What the gateway makes of the ticket for a day limit order. -/
theorem convert_ticket (hids : session.PlainIds) (hticket : ticket.Valid)
    (hlimit : ticket.orderType = '2') (hday : ticket.timeInForce = '0')
    (hprice : ticket.FiveDecimals) (now transactTime sendingTime : Timestamp) :
    ∃ request, BinaryToOrderRequestConverter.convert (ofFields (messageFields
        (session.ticketFields ticket now transactTime sendingTime))) = some request ∧
      Instrument.fromString ticket.symbol.toList = some request.symbol ∧
      FixUtils.charToOrderSide ticket.side = some request.side ∧
      (request.quantity.toNat : ℤ) = ticket.quantity.toInt ∧ request.price = ticket.price := by
  obtain ⟨symbol, hsymbol⟩ := hticket.symbol
  obtain ⟨side, hside⟩ : ∃ side, FixUtils.charToOrderSide ticket.side = some side := by
    rcases hticket.side with hside | hside
    · exact ⟨.buy, by rw [hside]; rfl⟩
    · exact ⟨.sell, by rw [hside]; rfl⟩
  obtain ⟨n, hn, hlt⟩ := hprice hlimit
  obtain ⟨x, hx, hpos⟩ := hticket.price hlimit
  obtain rfl : x = n / 10 ^ 5 := Double.finite.inj (hx.symm.trans hn)
  have hstod : Double.stod (Decimal.fixedText 5 ticket.price) = some ticket.price := by
    rw [hn]
    exact Decimal.stod_fixedText (by decide) (inRange_fiveDecimals hpos hlt)
  obtain ⟨map, hmap, hget⟩ := FixUtils.splitToMap_ofFields
    (plain_messageFields (plain_ticketFields hids hticket now transactTime sendingTime))
    (tags_ticketFields session ticket now transactTime sendingTime)
  have hvalues : map.get .senderCompID = some session.senderCompId ∧
      map.get .clOrdID = some (clOrdId now) ∧ map.get .symbol = some ticket.symbol.toList ∧
      map.get .side = some [ticket.side] ∧
      map.get .orderQty = some (Decimal.intText ticket.quantity.toInt) ∧
      map.get .price = some (Decimal.fixedText 5 ticket.price) := by
    simp [hget, lastValue, messageFields, checkedFields, ticketFields, payloadFields, orderFields,
      hlimit, hday, Tag.number]
  obtain ⟨hsender, hclOrdID, hsymbol', hside', hquantity, hprice'⟩ := hvalues
  have hpositive : 0 < ticket.quantity.toInt := by
    simpa [Int32.lt_iff_toInt_lt] using hticket.quantity
  have hquantity_lt := ticket.quantity.toInt_lt
  obtain ⟨q, hq⟩ := Int.eq_ofNat_of_zero_le hpositive.le
  have hstoull : stoull (Decimal.intText ticket.quantity.toInt) = some (UInt64.ofNat q) := by
    rw [hq, Decimal.intText_natCast, stoull, Decimal.stoul_natText (by omega), Option.map_some]
  have hfront : FixUtils.front [ticket.side] = ticket.side := rfl
  refine ⟨{ senderCompID := String.ofList session.senderCompId
            clientOrderId := String.ofList (clOrdId now)
            symbol := symbol
            side := side
            quantity := UInt64.ofNat q
            price := ticket.price }, ?_, hsymbol, hside, ?_, rfl⟩
  · simp [BinaryToOrderRequestConverter.convert,
      BinaryToOrderRequestConverter.checkChecksum_ofFields, hmap, hsender, hclOrdID, hsymbol',
      hside', hquantity, hprice', hsymbol, hside, hstoull, hstod, hfront]
  · rw [hq, UInt64.toNat_ofNat_of_lt' (by simp only [UInt64.size]; omega)]

/-- The gateway makes an order from the message of such a ticket. -/
theorem entersOrder_ticket {manager : FixSessionManager} {sessionId : ConnectionID}
    (hlogged : FixSession.isLoggedOn manager sessionId = true) (hids : session.PlainIds)
    (hreadable : session.SeqNumReadable) (hticket : ticket.Valid)
    (hlimit : ticket.orderType = '2') (hday : ticket.timeInForce = '0')
    (hprice : ticket.FiveDecimals) (now transactTime sendingTime : Timestamp) :
    FixSession.EntersOrder manager sessionId (ofFields (messageFields
      (session.ticketFields ticket now transactTime sendingTime))) where
  loggedOn := hlogged
  numbered := (msgSeqNum_isSome_iff hids).mpr hreadable
  isNewOrderSingle := by
    obtain ⟨map, hmap, hget⟩ := FixUtils.splitToMap_ofFields
      (plain_messageFields (plain_ticketFields hids hticket now transactTime sendingTime))
      (tags_ticketFields session ticket now transactTime sendingTime)
    have htype : map.get .msgType = some ['D'] := by
      simp [hget, lastValue, messageFields, checkedFields, ticketFields, payloadFields,
        orderFields, hlimit, hday, Tag.number]
    simp [FixSession.msgType, hmap, htype]
  converts := by
    obtain ⟨request, hrequest, _⟩ :=
      convert_ticket hids hticket hlimit hday hprice now transactTime sendingTime
    simp [hrequest]

end FixClientSession

namespace OrderTicket

/-- The session answers the data with exactly one command, a new order that the
ticket describes. -/
def EntersAs (ticket : OrderTicket) (ctx : ℕ → HandlerContext) (manager : FixSessionManager)
    (sessionId : ConnectionID) (data : Message) : Prop :=
  ∃ r cmd, FixSession.doRead ctx manager sessionId [] data = some r ∧
    SessionEffect.commands r.2.2 = [.newOrder cmd] ∧ ticket.Describes cmd.order

section Enters

variable {ticket : OrderTicket} {session : FixClientSession} {manager : FixSessionManager}
  {sessionId : ConnectionID} {now transactTime sendingTime : Timestamp} {message : Message}

/-- A limit order of the day is described by no other ticket. -/
theorem Describes.of_limit_day {order : Order Double} (hticket : ticket.Valid)
    (h : ticket.Describes order) (hlimit : order.orderType = .limit)
    (hday : order.timeInForce = .day) : ticket.orderType = '2' ∧ ticket.timeInForce = '0' := by
  have htype := h.orderType
  have htif := h.timeInForce
  rw [hlimit] at htype
  rw [hday] at htif
  refine ⟨hticket.orderType.resolve_left fun heq => ?_, ?_⟩
  · rw [heq] at htype
    exact absurd htype (by decide)
  · by_contra hne
    rw [charToTimeInForce, if_neg hne] at htif
    split_ifs at htif <;> exact absurd htif (by decide)

/-- The session handles a message that fills the buffer. -/
theorem doRead_eq (ctx : ℕ → HandlerContext) (manager : FixSessionManager)
    (sessionId : ConnectionID) {payload : List (ℕ × Message)}
    (hlength : (ofFields (messageFields payload)).length < 2 ^ 63) :
    ∃ n, FixSession.doRead ctx manager sessionId [] (ofFields (messageFields payload)) =
      (FixSession.handleFrame (ctx n) manager sessionId
        (ofFields (messageFields payload))).map fun r => (r.1, [], r.2) := by
  have hframe := (FixMessageFramer.validFrame_ofFields payload).extracts (by omega) []
  rw [List.append_nil] at hframe
  have hne : ofFields (messageFields payload) ≠ [] := by
    simp [FixMessageFramer.ofFields_messageFields]
  obtain ⟨n, hn⟩ := Nat.exists_eq_succ_of_ne_zero (List.length_pos_iff_ne_nil.mpr hne).ne'
  refine ⟨n, ?_⟩
  rw [FixSession.doRead, List.nil_append, hn]
  exact FixSession.readLoop_frame hne hframe

/-- A ticket enters as it was meant exactly when it is for a day limit order and
no CompID keeps the gateway from the sequence number. -/
theorem enters_iff (hvalid : validateOrderTicket ticket = none) (hprice : ticket.FiveDecimals)
    (hactive : session.state = .active) (hids : session.PlainIds)
    (hmessage : FixClientEffect.messages
      (session.sendTicket ticket now transactTime sendingTime).2 = [message])
    (hlength : message.length < 2 ^ 63)
    (hlogged : FixSession.isLoggedOn manager sessionId = true) (ctx : ℕ → HandlerContext) :
    ticket.EntersAs ctx manager sessionId message ↔
      ticket.orderType = '2' ∧ ticket.timeInForce = '0' ∧ session.SeqNumReadable := by
  have hticket := valid_of_validate hvalid
  rw [FixClientSession.messages_sendTicket hactive hids hticket] at hmessage
  obtain rfl := List.singleton_inj.mp hmessage
  obtain ⟨n, hread⟩ := doRead_eq ctx manager sessionId hlength
  rw [EntersAs, hread]
  constructor
  · rintro ⟨_, cmd, hr, hcommands, hdescribes⟩
    obtain ⟨r, hframe, rfl⟩ := Option.map_eq_some_iff.mp hr
    have hmem : .newOrder cmd ∈ SessionEffect.commands r.2 := by
      rw [hcommands]
      exact List.mem_singleton.mpr rfl
    have henters := FixSession.enters_of_newOrder hframe hmem
    obtain ⟨request, _, hcommands'⟩ := FixSession.handleFrame_enters hframe henters
    have hcmd := hcommands.symm.trans hcommands'
    simp only [List.cons.injEq, Command.newOrder.injEq, and_true] at hcmd
    subst hcmd
    obtain ⟨hlimit, hday⟩ := hdescribes.of_limit_day hticket rfl rfl
    exact ⟨hlimit, hday, (FixClientSession.msgSeqNum_isSome_iff hids).mp henters.numbered⟩
  · rintro ⟨hlimit, hday, hreadable⟩
    have henters := FixClientSession.entersOrder_ticket hlogged hids hreadable hticket hlimit hday
      hprice now transactTime sendingTime
    obtain ⟨request, hrequest, hsymbol, hside, hquantity, hprice'⟩ :=
      FixClientSession.convert_ticket hids hticket hlimit hday hprice now transactTime
        sendingTime
    cases hr : FixSession.handleFrame (ctx n) manager sessionId _ with
    | none =>
        exact absurd henters.isNewOrderSingle (FixSession.msgType_ne_of_handleFrame hr 'D')
    | some r =>
        obtain ⟨request', hrequest', hcommands⟩ := FixSession.handleFrame_enters hr henters
        obtain rfl := Option.some.inj (hrequest.symm.trans hrequest')
        refine ⟨_, _, rfl, hcommands, hsymbol, hside, hquantity, ?_, ?_, fun _ => hprice'⟩
        · rw [hlimit]
          rfl
        · rw [hday]
          rfl

end Enters

/-! ## Sample tickets -/

namespace Sample

def ticket (orderType timeInForce : Char) : OrderTicket :=
  { symbol := "EURUSD", side := '1', price := .finite (123450 / 10 ^ 5), quantity := 100,
    orderType := orderType, timeInForce := timeInForce }

def session : FixClientSession :=
  { senderCompId := "C1".toList, targetCompId := "BETA_EXCHANGE".toList, state := .active,
    seqStore := { inSeqNum := 2, outSeqNum := 2 }, hasOrderIntentCallback := false }

/-- The session manager after the logon. -/
def manager : FixSessionManager := ((FixServer.start none).run FixServer.Sample.loggedOn).manager

def message (orderType timeInForce : Char) : Message :=
  ofFields (messageFields (session.ticketFields (ticket orderType timeInForce) 0 0 0))

theorem plainIds : session.PlainIds := ⟨Plain.of_all (by decide), Plain.of_all (by decide)⟩

theorem seqNumReadable : session.SeqNumReadable := by
  have hnone : Text.between "34=".toList soh
      (ofFields [(49, session.senderCompId), (56, session.targetCompId)]) = none := by
    decide +kernel
  intro value hvalue
  rw [hnone] at hvalue
  simp at hvalue

theorem fiveDecimals (orderType timeInForce : Char) : (ticket orderType timeInForce).FiveDecimals :=
  fun _ => ⟨123450, rfl, by decide +kernel⟩

end Sample

theorem enters_iff_sample :
    (Sample.ticket '2' '0').EntersAs (fun _ => FixServer.Sample.ctx 1) Sample.manager 1
      (Sample.message '2' '0') := by
  have hvalid : validateOrderTicket (Sample.ticket '2' '0') = none := by decide +kernel
  have hmessage : FixClientEffect.messages
      (Sample.session.sendTicket (Sample.ticket '2' '0') 0 0 0).2 = [Sample.message '2' '0'] :=
    FixClientSession.messages_sendTicket rfl Sample.plainIds (valid_of_validate hvalid)
  exact (enters_iff hvalid (Sample.fiveDecimals '2' '0') rfl Sample.plainIds hmessage
    (by decide +kernel) (by decide +kernel) _).mpr ⟨rfl, rfl, Sample.seqNumReadable⟩

/-- A market order that the panel sends at the press of a button is refused. -/
theorem market_ticket_refused :
    validateOrderTicket (Sample.ticket '1' '3') = none ∧ (Sample.ticket '1' '3').FiveDecimals ∧
    Sample.session.state = .active ∧ Sample.session.PlainIds ∧
    FixClientEffect.messages (Sample.session.sendTicket (Sample.ticket '1' '3') 0 0 0).2 =
      [Sample.message '1' '3'] ∧
    FixSession.isLoggedOn Sample.manager 1 = true ∧
    ¬(Sample.ticket '1' '3').EntersAs (fun _ => FixServer.Sample.ctx 1) Sample.manager 1
      (Sample.message '1' '3') := by
  refine ⟨by decide +kernel, Sample.fiveDecimals '1' '3', rfl, Sample.plainIds, by decide +kernel,
    by decide +kernel, ?_⟩
  rintro ⟨r, cmd, hr, hcommands, _⟩
  have hnone : (FixSession.doRead (fun _ => FixServer.Sample.ctx 1) Sample.manager 1 []
      (Sample.message '1' '3')).map (fun r => (SessionEffect.commands r.2.2).length) = some 0 := by
    decide +kernel
  rw [hr, Option.map_some, hcommands] at hnone
  simp at hnone

end OrderTicket

end BetaTrader
