import BetaTrader.Exchange.OrderBook

/-!
# The matcher

`Matcher::match` and `Matcher::matchTable`.  The loops read and write the orders
through their pointers, so that the incoming and the resting order of every
fill are the objects of the order manager.  `none` is a read through a pointer
to an object that is gone.
-/

namespace BetaTrader

/-- What the matching loop changes besides the map it walks along. -/
structure MatchState (P : Type) where
  manager : OrderManager P
  /-- `TradeIDGenerator::mCurrentId`. -/
  currentId : TradeID
  /-- How many times the clock has been read. -/
  ticks : ℕ
  trades : List (Trade P)

namespace Matcher

variable {P : Type}

/-- The body of the inner loop up to the `pop_front`: the front order of the
level trades with the incoming order. -/
def fillFront (clock : Clock) (incomingOrder restingOrder : OrderPtr) (m : MatchState P) :
    Option (MatchState P) := do
  let incoming ← m.manager.deref incomingOrder
  let resting ← m.manager.deref restingOrder
  let tradeQuantity := min incoming.remainingQuantity resting.remainingQuantity
  let newId := m.currentId + 1
  let trade : Trade P := {
    tradeId := newId
    orderSymbol := incoming.symbol
    buyOrderId := if incoming.side = .buy then incoming.coreOrderId else resting.coreOrderId
    sellOrderId := if incoming.side = .buy then resting.coreOrderId else incoming.coreOrderId
    quantity := tradeQuantity
    price := resting.price
    timestamp := clock m.ticks }
  let manager ← m.manager.modify incomingOrder fun order =>
    order.setRemainingQuantity (order.remainingQuantity - tradeQuantity)
  let manager ← manager.modify restingOrder fun order =>
    order.setRemainingQuantity (order.remainingQuantity - tradeQuantity)
  let manager ← manager.modify incomingOrder fun order => order.setStatus .partiallyFilled
  let manager ← manager.modify restingOrder fun order =>
    order.setStatus (if order.remainingQuantity = 0 then .filled else .partiallyFilled)
  return { manager := manager, currentId := newId, ticks := m.ticks + 1,
           trades := m.trades ++ [trade] }

/-- The inner loop, with the level it leaves behind. -/
def matchLevel (clock : Clock) (incomingOrder : OrderPtr) (m : MatchState P) :
    PriceLevel → Option (MatchState P × PriceLevel)
  | [] => some (m, [])
  | restingOrder :: restingLevel => do
      let incoming ← m.manager.deref incomingOrder
      if 0 < incoming.remainingQuantity then
        let m ← fillFront clock incomingOrder restingOrder m
        let resting ← m.manager.deref restingOrder
        if resting.remainingQuantity = 0 then matchLevel clock incomingOrder m restingLevel
        else
          -- the resting order outlasts the incoming one, so the loop ends here
          return (m, restingOrder :: restingLevel)
      else return (m, restingOrder :: restingLevel)

section Table

variable [LT P] [DecidableLT P]

/-- The test that breaks out of the outer loop: a limit buy below the level's
price, or a limit sell above it.  Either way its own price would stand before
the level's in the map it walks along. -/
def breaks (incoming : Order P) (levelPrice : P) : Prop :=
  incoming.orderType = .limit ∧ incoming.side.opposite.before incoming.price levelPrice

instance (incoming : Order P) (levelPrice : P) : Decidable (breaks incoming levelPrice) :=
  inferInstanceAs (Decidable (_ ∧ _))

/-- The outer loop, with the map it leaves behind. -/
def matchLevels (clock : Clock) (incomingOrder : OrderPtr) (m : MatchState P) :
    PriceMap P → Option (MatchState P × PriceMap P)
  | [] => some (m, [])
  | (price, restingLevel) :: restingMap => do
      let incoming ← m.manager.deref incomingOrder
      if 0 < incoming.remainingQuantity ∧ ¬breaks incoming price then
        let (m, restingLevel) ← matchLevel clock incomingOrder m restingLevel
        let (m, restingMap) ← matchLevels clock incomingOrder m restingMap
        return (m, if restingLevel.isEmpty then restingMap
          else (price, restingLevel) :: restingMap)
      else return (m, (price, restingLevel) :: restingMap)

/-- The status the incoming order ends with. -/
def finalStatus (incoming : Order P) : OrderStatus :=
  if incoming.remainingQuantity = 0 then .filled
  else if incoming.orderType = .market ∧
      incoming.originalQuantity = incoming.remainingQuantity then .cancelled
  else incoming.status

def matchTable (clock : Clock) (incomingOrder : OrderPtr) (m : MatchState P)
    (restingMap : PriceMap P) : Option (MatchState P × PriceMap P) := do
  let (m, restingMap) ← matchLevels clock incomingOrder m restingMap
  let manager ← m.manager.modify incomingOrder fun order => order.setStatus (finalStatus order)
  return ({ m with manager := manager }, restingMap)

/-- `Matcher::match`; buys walk along the asks and sells along the bids. -/
def matchOrder (clock : Clock) (incomingOrder : OrderPtr) (m : MatchState P)
    (orderBook : OrderBook P) : Option (MatchState P × OrderBook P) := do
  let incoming ← m.manager.deref incomingOrder
  let (m, map) ← matchTable clock incomingOrder m (orderBook.sideMap incoming.side.opposite)
  return (m, orderBook.setSideMap incoming.side.opposite map)

end Table

end Matcher

end BetaTrader
