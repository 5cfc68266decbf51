import BetaTrader.Exchange.Database
import BetaTrader.Exchange.ExecutionPublisher
import BetaTrader.Exchange.Matcher
import BetaTrader.Exchange.RiskManager
import BetaTrader.Lib.Run

/-!
# The worker of a partition

The three command handlers of `WorkerThread` as functions on the state of one
partition.  Calls that leave the partition are recorded in its journal, in the
order in which they are made.  A handler that would read an object that is gone
has the result `none`.
-/

namespace BetaTrader

structure NewOrder (P : Type) where
  clientId : ClientID
  timestamp : Timestamp
  order : Order P
  /-- The command carries an order as its constructor made it. -/
  isNew : order.IsNew

structure CancelOrder where
  clientId : ClientID
  timestamp : Timestamp
  orderId : OrderID

structure ModifyOrder (P : Type) where
  clientId : ClientID
  timestamp : Timestamp
  orderId : OrderID
  newPrice : P
  newQuantity : Quantity

inductive Command (P : Type) where
  | newOrder (cmd : NewOrder P)
  | cancelOrder (cmd : CancelOrder)
  | modifyOrder (cmd : ModifyOrder P)

/-- Something that leaves the partition. -/
inductive Event (P : Type) where
  | published (publication : Publication P)
  | enqueued (task : DatabaseTask P)
  | refreshed (refresh : MarketDataIncrementalRefresh P)
  /-- The trades a call of `Matcher::match` returned. -/
  | matched (trades : List (Trade P))

structure Partition (P : Type) where
  orderManager : OrderManager P
  orderBook : OrderBook P
  /-- `TradeIDGenerator::mCurrentId`. -/
  currentId : TradeID
  /-- How many times the clock has been read. -/
  ticks : ℕ
  journal : List (Event P)

namespace Partition

variable {P : Type}

/-- An empty partition; the trade id counter goes on from `currentId`. -/
def init (symbol : Instrument) (currentId : TradeID) : Partition P where
  orderManager := .empty
  orderBook := .empty symbol
  currentId := currentId
  ticks := 0
  journal := []

def emit (s : Partition P) (events : List (Event P)) : Partition P :=
  { s with journal := s.journal ++ events }

def publish (s : Partition P) (publication : Publication P) : Partition P :=
  s.emit [.published publication]

def enqueue (s : Partition P) (task : DatabaseTask P) : Partition P :=
  s.emit [.enqueued task]

/-- `publishRejection` reads the clock for the transaction time. -/
def publishRejection (s : Partition P) (clock : Clock) (orderId : OrderID) (clientId : ClientID)
    (symbol : Instrument) (side : OrderSide) (reason : String) : Partition P :=
  { s with
    ticks := s.ticks + 1
    journal := s.journal ++
      [.published (.rejection orderId clientId symbol side reason (clock s.ticks))] }

/-- `mOrderRepository.removeOrder` followed by `mOrderManager.removeOrderById`. -/
def retire (s : Partition P) (id : OrderID) : Partition P :=
  { s with
    orderManager := s.orderManager.removeOrderById id
    journal := s.journal ++ [.enqueued (.removeOrder id)] }

/-- `RiskManager::postTradeUpdate`. -/
def postTradeUpdate (s : Partition P) (trade : Trade P) : Partition P :=
  s.enqueue (.addTrade trade)

/-- Put `manager` in the place of the partition's order manager. -/
def withManager (s : Partition P) (manager : OrderManager P) : Partition P :=
  { s with orderManager := manager }

/-- `OrderBook::cancelOrder`; the answer says whether the order was found. -/
def cancelInBook (s : Partition P) (clock : Clock) (orderId : OrderID) :
    Option (Bool × Partition P) := do
  let (orderBook, refresh) ← s.orderBook.cancelOrder s.orderManager orderId (clock s.ticks)
  match refresh with
  | none => return (false, { s with orderBook := orderBook })
  | some refresh =>
      return (true, { s with
        orderBook := orderBook
        ticks := s.ticks + 1
        journal := s.journal ++ [.refreshed refresh] })

/-- The body of the booking loop. -/
def bookTrade (s : Partition P) (trade : Trade P) : Option (Partition P) :=
  match s.orderManager.getOrderById trade.buyOrderId,
    s.orderManager.getOrderById trade.sellOrderId with
  | some buyOrder, some sellOrder => do
      let s := s.enqueue (.updateOrder buyOrder)
      let s := s.enqueue (.updateOrder sellOrder)
      let s := s.publish (.trade trade buyOrder sellOrder)
      let s := if buyOrder.remainingQuantity = 0 then s.retire buyOrder.coreOrderId else s
      -- `*sellOrderOpt` is read again after the buy order may have been destroyed
      let sellOrder ← s.orderManager.deref trade.sellOrderId
      return if sellOrder.remainingQuantity = 0 then s.retire sellOrder.coreOrderId else s
  | _, _ => some s

/-- The booking loop.  `postTrade` is the call that precedes the body: the
new-order handler makes one, the modify handler does not. -/
def bookTrades (postTrade : Partition P → Trade P → Partition P) :
    Partition P → List (Trade P) → Option (Partition P)
  | s, [] => some s
  | s, trade :: trades => (bookTrade (postTrade s trade) trade).bind (bookTrades postTrade · trades)

section Handlers

variable [PriceArith P]

/-- `Matcher::match` on the partition's book, recorded in the journal. -/
def matchOrder (s : Partition P) (clock : Clock) (incomingOrder : OrderPtr) :
    Option (Partition P × List (Trade P)) := do
  let m : MatchState P := {
    manager := s.orderManager
    currentId := s.currentId
    ticks := s.ticks
    trades := [] }
  let (m, orderBook) ← Matcher.matchOrder clock incomingOrder m s.orderBook
  return ({ orderManager := m.manager, orderBook := orderBook, currentId := m.currentId,
            ticks := m.ticks, journal := s.journal ++ [.matched m.trades] }, m.trades)

/-- `OrderBook::insertOrder`. -/
def insertInBook (s : Partition P) (ptr : OrderPtr) : Option (Partition P) := do
  let (orderBook, refresh) ← s.orderBook.insertOrder s.orderManager ptr
  return { s with orderBook := orderBook, journal := s.journal ++ [.refreshed refresh] }

/-- `containsOrderById(orderId) && order->getRemainingQuantity() > 0`, with the
insertion it guards. -/
def insertIfOpen (s : Partition P) (ptr : OrderPtr) : Option (Partition P) :=
  match s.orderManager.getOrderById ptr with
  | none => some s
  | some order => if 0 < order.remainingQuantity then s.insertInBook ptr else some s

def processNewOrder (clock : Clock) (cmd : NewOrder P) (s : Partition P) :
    Option (Partition P) := do
  let order := cmd.order
  let orderId := order.coreOrderId
  let orderType := order.orderType
  let passed ← RiskManager.preCheck s.orderManager order s.orderBook
  if !passed then
    return s.publishRejection clock orderId order.clientId order.symbol order.side
      "Risk check failed"
  else
    let (true, manager) := s.orderManager.addOrder order
      -- the object has been destroyed, and the next statement reads it
      | none
    let s := s.withManager manager
    let s := s.enqueue (.saveOrder order)
    let s := s.publish (.execution order "NEW")
    let (s, trades) ← s.matchOrder clock orderId
    let s ← s.bookTrades postTradeUpdate trades
    let s ← if orderType = .limit then s.insertIfOpen orderId else some s
    return if orderType = .market ∧ s.orderManager.containsOrderById orderId then s.retire orderId
      else s

def processCancelOrder (clock : Clock) (cmd : CancelOrder) (s : Partition P) :
    Option (Partition P) :=
  match s.orderManager.getOrderById cmd.orderId with
  | none =>
      some (s.publishRejection clock cmd.orderId cmd.clientId .eurusd .buy "Order not found")
  | some _ => do
      let (cancelled, s) ← s.cancelInBook clock cmd.orderId
      let order ← s.orderManager.deref cmd.orderId
      if cancelled then
        let s := s.publish (.execution order "CANCELED")
        return s.retire cmd.orderId
      else
        return s.publishRejection clock cmd.orderId cmd.clientId order.symbol order.side
          "Order cannot be canceled"

def processModifyOrder (clock : Clock) (cmd : ModifyOrder P) (s : Partition P) :
    Option (Partition P) :=
  match s.orderManager.getOrderById cmd.orderId with
  | none =>
      some (s.publishRejection clock cmd.orderId cmd.clientId .eurusd .buy "Order not found")
  | some _ => do
      let (_, s) ← s.cancelInBook clock cmd.orderId
      let s := s.enqueue (.removeOrder cmd.orderId)
      let manager ← s.orderManager.modify cmd.orderId fun order =>
        ((order.setPrice cmd.newPrice).setOriginalQuantity cmd.newQuantity).setStatus .new
      let s := s.withManager manager
      let order ← s.orderManager.deref cmd.orderId
      let s := s.enqueue (.saveOrder order)
      let s := s.publish (.execution order "REPLACED")
      let (s, trades) ← s.matchOrder clock cmd.orderId
      let s ← s.bookTrades (fun s _ => s) trades
      let s ← s.insertIfOpen cmd.orderId
      match s.orderManager.getOrderById cmd.orderId with
      | none => return s
      | some order =>
          return if order.remainingQuantity = 0 then s.retire cmd.orderId else s

/-- The dispatch of `processBatch` for one command. -/
def processCommand (clock : Clock) (s : Partition P) : Command P → Option (Partition P)
  | .newOrder cmd => processNewOrder clock cmd s
  | .cancelOrder cmd => processCancelOrder clock cmd s
  | .modifyOrder cmd => processModifyOrder clock cmd s

/-- The worker processes its commands one after another. -/
def processAll (clock : Clock) (s : Partition P) (commands : List (Command P)) :
    Option (Partition P) :=
  PartialRun.run (processCommand clock) s commands

end Handlers

end Partition

end BetaTrader
