import BetaTrader.Common.Order
import BetaTrader.Lib.Strtoul

/-!
# Execution reports

`fix::ExecutionReport` and the three functions of `ExecutionPublisher`.  A call
is recorded with the order contents it was given; `reports` is what the
registered callback receives for it, in order.
-/

namespace BetaTrader

structure ExecutionReport (P : Type) where
  senderCompId : UInt32
  targetCompId : UInt32
  messageSequenceNumber : UInt64
  exchangeOrderId : OrderID
  clientOrderId : ClientOrderID
  executionId : String
  status : OrderStatus
  text : String
  symbol : Instrument
  side : OrderSide
  orderQuantity : Quantity
  cumulativeQuantity : Quantity
  leavesQuantity : Quantity
  lastPrice : P
  lastQuantity : Quantity
  transactionTime : Timestamp

/-- A call of one of the publisher's functions. -/
inductive Publication (P : Type) where
  | execution (order : Order P) (action : String)
  | trade (trade : Trade P) (buyOrder sellOrder : Order P)
  | rejection (orderId : OrderID) (clientId : ClientID) (symbol : Instrument)
      (side : OrderSide) (reason : String) (now : Timestamp)

namespace ExecutionPublisher

variable {P : Type}

/-- `std::to_string` of an id. -/
def idText (id : OrderID) : String := toString id.toNat

/-- Text that does not convert gives `0`; the result is narrowed to 32 bits. -/
def stoulSafe (s : String) : UInt32 := UInt32.ofNat ((Strtoul.stoul s).getD 0)

def publishExecution (order : Order P) (action : String) : ExecutionReport P where
  senderCompId := 1
  targetCompId := stoulSafe order.clientId
  messageSequenceNumber := 0
  exchangeOrderId := order.coreOrderId
  clientOrderId := order.clientOrderId
  executionId := "exec_" ++ idText order.coreOrderId
  status :=
    if action = "CANCELED" then .cancelled
    else if action = "NEW" then .new
    else order.status
  text := action
  symbol := order.symbol
  side := order.side
  orderQuantity := order.originalQuantity
  cumulativeQuantity := order.originalQuantity - order.remainingQuantity
  leavesQuantity := order.remainingQuantity
  lastPrice := order.price
  lastQuantity := 0
  transactionTime := order.timestamp

/-- The report about one side of a trade. -/
def tradeReport (trade : Trade P) (order : Order P) (suffix : String) : ExecutionReport P where
  senderCompId := 1
  targetCompId := stoulSafe order.clientId
  messageSequenceNumber := 0
  exchangeOrderId := order.coreOrderId
  clientOrderId := order.clientOrderId
  executionId := "exec_trade_" ++ toString trade.tradeId ++ suffix
  status := order.status
  text := "TRADE"
  symbol := order.symbol
  side := order.side
  orderQuantity := order.originalQuantity
  cumulativeQuantity := order.originalQuantity - order.remainingQuantity
  leavesQuantity := order.remainingQuantity
  lastPrice := trade.price
  lastQuantity := trade.quantity
  transactionTime := trade.timestamp

/-- The buyer's report, then the seller's. -/
def publishTrade (trade : Trade P) (buyOrder sellOrder : Order P) : List (ExecutionReport P) :=
  [tradeReport trade buyOrder "_buy", tradeReport trade sellOrder "_sell"]

def publishRejection [Zero P] (orderId : OrderID) (clientId : ClientID) (symbol : Instrument)
    (side : OrderSide) (reason : String) (now : Timestamp) : ExecutionReport P where
  senderCompId := 1
  targetCompId := stoulSafe clientId
  messageSequenceNumber := 0
  exchangeOrderId := orderId
  -- the core id stands in for the client's own id
  clientOrderId := idText orderId
  executionId := "exec_reject_" ++ idText orderId
  status := .rejected
  text := reason
  symbol := symbol
  side := side
  orderQuantity := 0
  cumulativeQuantity := 0
  leavesQuantity := 0
  lastPrice := 0
  lastQuantity := 0
  transactionTime := now

end ExecutionPublisher

namespace Publication

variable {P : Type} [Zero P]

open ExecutionPublisher

/-- What the callback receives for a call. -/
def reports : Publication P → List (ExecutionReport P)
  | execution order action => [publishExecution order action]
  | trade t buyOrder sellOrder => publishTrade t buyOrder sellOrder
  | rejection orderId clientId symbol side reason now =>
      [publishRejection orderId clientId symbol side reason now]

end Publication

end BetaTrader
