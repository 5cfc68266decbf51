import BetaTrader.Common.OutboundMessageBuilder
import BetaTrader.Exchange.FixMessageFramer
import BetaTrader.Exchange.FixSessionManager
import BetaTrader.Exchange.OrderRequestConverter
import BetaTrader.Exchange.WorkerThread

/-!
# Sessions

What `FixSession` does with the messages of one connection.  A handler changes
the session manager and has a list of effects; what it reads from the trading
core and the clock is given to it.
-/

namespace BetaTrader

open FixUtils

/-- What the handler of one message reads from outside the session. -/
structure HandlerContext where
  /-- The answer of `OrderIDGenerator::nextId`. -/
  nextId : OrderID
  /-- The id of the order that `TradingCore::getOrderByClientOrderId` finds. -/
  orderIdOf : ClientOrderID → Option OrderID
  now : Timestamp
  /-- What local time is ahead of UTC, in seconds. -/
  utcOffset : ℤ

inductive SessionEffect where
  /-- The manager has accepted the connection under this CompID. -/
  | authenticated (compId : String)
  | doWrite (message : Message)
  | close
  | submitCommand (command : Command Double)
  | handleMarketDataRequest (fixMessage : Message)

/-- `std::to_string` of a number. -/
def numberText (n : ℕ) : String := String.ofList (Decimal.natText n)

/-- The command that a request leads to.  The order is a day limit order,
whatever the message says about type and time in force. -/
def OrderRequest.newOrder (request : OrderRequest) (sessionId : ConnectionID)
    (coreOrderId : OrderID) (now : Timestamp) : NewOrder Double where
  clientId := numberText sessionId.toNat
  timestamp := now
  order := .create request.clientOrderId coreOrderId request.symbol (numberText sessionId.toNat)
    request.senderCompID request.side .limit .day request.quantity request.price now
  isNew := Order.isNew_create ..

namespace FixSession

/-- The number that `std::stoul` reads behind the first `34=`, narrowed to 32
bits; `none` is its exception. -/
def msgSeqNum (fixMessage : Message) : Option UInt32 :=
  match Text.between "34=".toList soh fixMessage with
  | none => some 0
  | some value => (Strtoul.stoul (String.ofList value)).map UInt32.ofNat

/-- What stands behind the first `49=`. -/
def senderCompId (fixMessage : Message) : Message :=
  (Text.between "49=".toList soh fixMessage).getD []

section Handlers

variable (ctx : HandlerContext) (manager : FixSessionManager) (sessionId : ConnectionID)
  (fixMessage : Message)

/-- The message of the exchange with the next number of the session. -/
def buildNext (build : UInt32 → Timestamp → Message) : FixSessionManager × List SessionEffect :=
  let (outSeq, manager) := manager.useNextOutboundSequence sessionId
  (manager, [.doWrite (build outSeq ctx.now)])

/-- The CompID of the session, if there is one. -/
def targetCompId : Message :=
  match manager.getSessionState sessionId with
  | none => []
  | some state => state.senderCompId.toList

def sendReject (refSeqNum : ℕ) (text : String) : FixSessionManager × List SessionEffect :=
  buildNext ctx manager sessionId fun outSeq now =>
    OutboundMessageBuilder.buildMessage "BETA_EXCHANGE".toList (targetCompId manager sessionId)
      outSeq ['3'] (Text.close soh [field 45 (Decimal.natText refSeqNum),
        field 58 text.toList]) now

def sendBusinessMessageReject (refSeqNum : UInt32) (refMsgType : Char)
    (businessRejectReason : ℕ) (text : String) : FixSessionManager × List SessionEffect :=
  buildNext ctx manager sessionId fun outSeq now =>
    OutboundMessageBuilder.buildMessage "BETA_EXCHANGE".toList (targetCompId manager sessionId)
      outSeq ['j'] (Text.close soh [field 45 (Decimal.natText refSeqNum.toNat),
        field 372 [refMsgType], field 379 (Decimal.natText businessRejectReason),
        field 58 text.toList]) now

/-- A message of type `A`. -/
def handleLogon (msgSeqNum : UInt32) : FixSessionManager × List SessionEffect :=
  let compId := String.ofList (senderCompId fixMessage)
  let (authenticated, manager) := manager.authenticate sessionId compId
  if !authenticated then
    (manager, [.doWrite (OutboundMessageBuilder.buildLogout "BETA_EXCHANGE".toList
      (senderCompId fixMessage) 1 "Invalid SenderCompID".toList ctx.now), .close])
  else
    -- the answer of the validation is not looked at
    let (_, manager) := manager.validateSequence sessionId msgSeqNum
    let (manager, logonAck) := buildNext ctx manager sessionId fun outSeq now =>
      OutboundMessageBuilder.buildLogon "BETA_EXCHANGE".toList (senderCompId fixMessage)
        outSeq 30 now
    (manager, .authenticated compId :: logonAck)

/-- A message of type `5`. -/
def handleLogout : FixSessionManager × List SessionEffect :=
  let (outSeq, manager) := manager.useNextOutboundSequence sessionId
  ((manager.handleLogout sessionId).cleanupConnection sessionId,
    [.doWrite (OutboundMessageBuilder.buildLogout "BETA_EXCHANGE".toList
      (senderCompId fixMessage) outSeq "Logout Acknowledged".toList ctx.now), .close])

def handleTestRequest : FixSessionManager × List SessionEffect :=
  buildNext ctx manager sessionId fun outSeq now =>
    OutboundMessageBuilder.buildHeartbeat "BETA_EXCHANGE".toList (senderCompId fixMessage) outSeq
      ((Text.between "112=".toList soh fixMessage).getD []) now

def handleNewOrderSingle (msgSeqNum : UInt32) : FixSessionManager × List SessionEffect :=
  match BinaryToOrderRequestConverter.convert fixMessage with
  | some orderRequest =>
      (manager, [.submitCommand (.newOrder (orderRequest.newOrder sessionId ctx.nextId ctx.now))])
  | none => sendBusinessMessageReject ctx manager sessionId msgSeqNum 'D' 5 "Invalid NewOrderSingle"

/-- `orderID`, or the id of an order with this client order id when it is `0`. -/
def resolve (orderID : OrderID) (clientOrderId : ClientOrderID) : OrderID :=
  if orderID = 0 then (ctx.orderIdOf clientOrderId).getD 0 else orderID

/-- The order a cancel request is about; `0` when it names none. -/
def orderIdToCancel (request : CancelOrderRequest) : OrderID :=
  resolve ctx request.orderID
    (if request.origClOrdID = "" then request.clOrdID else request.origClOrdID)

def handleCancelOrderRequest : List SessionEffect :=
  match BinaryToCancelOrderRequestConverter.convert ctx.utcOffset fixMessage with
  | none => []
  | some request =>
      if orderIdToCancel ctx request = 0 then []
      else [.submitCommand (.cancelOrder {
        clientId := numberText sessionId.toNat
        timestamp := request.transactTime
        orderId := orderIdToCancel ctx request })]

/-- The order a replace request is about; `0` when it names none. -/
def orderIdToModify (request : ModifyOrderRequest) : OrderID :=
  if request.origClOrdID = "" then request.orderID
  else resolve ctx request.orderID request.origClOrdID

def handleModifyOrderRequest : List SessionEffect :=
  match BinaryToModifyOrderRequestConverter.convert ctx.utcOffset fixMessage with
  | none => []
  | some request =>
      if orderIdToModify ctx request = 0 then []
      else [.submitCommand (.modifyOrder {
        clientId := numberText sessionId.toNat
        timestamp := request.transactTime
        orderId := orderIdToModify ctx request
        newPrice := request.price
        newQuantity := request.orderQty })]

/-- The `switch` for the messages of a session that is logged on. -/
def dispatch (msgType : Char) (msgSeqNum : UInt32) : FixSessionManager × List SessionEffect :=
  if msgType = '1' then handleTestRequest ctx manager sessionId fixMessage
  else if msgType = 'D' then handleNewOrderSingle ctx manager sessionId fixMessage msgSeqNum
  else if msgType = 'F' then (manager, handleCancelOrderRequest ctx sessionId fixMessage)
  else if msgType = 'G' then (manager, handleModifyOrderRequest ctx sessionId fixMessage)
  else if msgType = 'V' then (manager, [.handleMarketDataRequest fixMessage])
  else (manager, [])

/-- Is the session logged on? -/
def isLoggedOn : Bool :=
  match manager.getSessionState sessionId with
  | none => false
  | some state => state.isLoggedOn

def handleFixMessage (msgType : Char) : FixSessionManager × List SessionEffect :=
  match msgSeqNum fixMessage with
  | none => (manager, [])
  | some msgSeqNum =>
      if msgType = 'A' then handleLogon ctx manager sessionId fixMessage msgSeqNum
      else if msgType = '5' then handleLogout ctx manager sessionId fixMessage
      else if isLoggedOn manager sessionId then
        -- the answer of the validation is not looked at
        let (_, manager) := manager.validateSequence sessionId msgSeqNum
        dispatch ctx manager sessionId fixMessage msgType msgSeqNum
      else (manager, [.close])

/-- What the read handler does with a complete frame.  An exception of
`splitToMap` leaves the handler and ends the process: `none`. -/
def handleFrame : Option (FixSessionManager × List SessionEffect) := do
  let fields ← splitToMap fixMessage soh
  match fields.get .msgType with
  | some (msgType :: _) => return handleFixMessage ctx manager sessionId fixMessage msgType
  | _ => return sendReject ctx manager sessionId 0 "Missing MsgType (Tag 35)"

end Handlers

end FixSession

end BetaTrader
