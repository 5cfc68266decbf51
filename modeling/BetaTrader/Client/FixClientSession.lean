import BetaTrader.Common.OutboundMessageBuilder

/-!
# The client's session

What `FixClientSession` sends.  A method changes the session and has a list of
effects; the readings of the clock are given to it.
-/

namespace BetaTrader

inductive FixClientState where
  | disconnected
  | connecting
  | connected
  | logonSent
  | active
  | loggingOut
  deriving DecidableEq

structure NewOrderIntent where
  clientOrderId : ClientOrderID
  symbol : String
  side : Char
  price : Double
  quantity : Int32
  orderType : Char
  timeInForce : Char

inductive FixClientEffect where
  | doWrite (message : Message)
  /-- The callback of an order that has been sent. -/
  | orderIntent (intent : NewOrderIntent)

/-- The messages among the effects. -/
def FixClientEffect.messages (effects : List FixClientEffect) : List Message :=
  effects.filterMap fun
    | .doWrite message => some message
    | .orderIntent _ => none

structure SeqNumStore where
  inSeqNum : UInt32
  outSeqNum : UInt32
  deriving DecidableEq

structure FixClientSession where
  senderCompId : Message
  targetCompId : Message
  state : FixClientState
  seqStore : SeqNumStore
  /-- Has a callback for orders been set? -/
  hasOrderIntentCallback : Bool

namespace FixClientSession

variable (session : FixClientSession)

def sendMessage (msgType bodyStr : Message) (now : Timestamp) :
    FixClientSession × List FixClientEffect :=
  if session.state ≠ .active then (session, [])
  else
    let outSeq := session.seqStore.outSeqNum
    ({ session with seqStore := { session.seqStore with outSeqNum := outSeq + 1 } },
      [.doWrite (OutboundMessageBuilder.buildMessage session.senderCompId session.targetCompId
        outSeq msgType bodyStr now)])

/-- The microseconds since the epoch. -/
def clOrdId (now : Timestamp) : Message := Decimal.intText (now.tdiv 1000)

/-- The fields of the order; `now` and `transactTime` are two readings of the
clock. -/
def orderFields (symbol : String) (side : Char) (price : Double) (qty : Int32) (type tif : Char)
    (now transactTime : Timestamp) : List (ℕ × Message) :=
  [(11, clOrdId now), (55, symbol.toList), (54, [side]),
    (60, OutboundMessageBuilder.generateTimestamp transactTime),
    (38, Decimal.intText qty.toInt), (40, [type])] ++
  (if type ≠ '1' then [(44, Decimal.fixedText 5 price)] else []) ++
  (if tif ≠ '0' then [(59, [tif])] else [])

/-- The clock is read for the id, for field 60 and for the header. -/
def sendNewOrder (symbol : String) (side : Char) (price : Double) (qty : Int32) (type tif : Char)
    (now transactTime sendingTime : Timestamp) : FixClientSession × List FixClientEffect :=
  if session.state ≠ .active then (session, [])
  else
    let (session', effects) := session.sendMessage ['D']
      (Text.close soh ((orderFields symbol side price qty type tif now transactTime).map
        fun f => FixUtils.field f.1 f.2)) sendingTime
    (session', effects ++
      if session.hasOrderIntentCallback then
        [.orderIntent {
          clientOrderId := String.ofList (clOrdId now)
          symbol := symbol
          side := side
          price := price
          quantity := qty
          orderType := type
          timeInForce := tif }]
      else [])

end FixClientSession

end BetaTrader
