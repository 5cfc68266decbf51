import BetaTrader.Common.MarketData
import BetaTrader.Exchange.OrderManager
import BetaTrader.Lib.Levels

/-!
# The order book

`OrderBook` keeps two maps from prices to deques of order pointers, the bids by
falling and the asks by rising price.  A map is the list of its entries in
iteration order.
-/

namespace BetaTrader

abbrev PriceLevel := List OrderPtr

abbrev PriceMap (P : Type) := List (P × PriceLevel)

structure OrderBook (P : Type) where
  symbol : Instrument
  bidMap : PriceMap P
  askMap : PriceMap P

def OrderSide.entryType : OrderSide → MDEntryType
  | .buy => .bid
  | .sell => .offer

namespace OrderBook

variable {P : Type}

def empty (symbol : Instrument) : OrderBook P := ⟨symbol, [], []⟩

/-- The map that holds the resting orders of a side. -/
def sideMap (book : OrderBook P) : OrderSide → PriceMap P
  | .buy => book.bidMap
  | .sell => book.askMap

def setSideMap (book : OrderBook P) : OrderSide → PriceMap P → OrderBook P
  | .buy, map => { book with bidMap := map }
  | .sell, map => { book with askMap := map }

@[simp] theorem empty_sideMap (symbol : Instrument) (side : OrderSide) :
    (empty symbol : OrderBook P).sideMap side = [] := by
  cases side <;> rfl

@[simp] theorem sideMap_setSideMap_self (book : OrderBook P) (side : OrderSide)
    (map : PriceMap P) : (book.setSideMap side map).sideMap side = map := by
  cases side <;> rfl

theorem sideMap_setSideMap_of_ne (book : OrderBook P) {side side' : OrderSide}
    (h : side' ≠ side) (map : PriceMap P) :
    (book.setSideMap side map).sideMap side' = book.sideMap side' := by
  cases side <;> cases side' <;> simp_all [sideMap, setSideMap]

theorem sideMap_setSideMap (book : OrderBook P) (side side' : OrderSide) (map : PriceMap P) :
    (book.setSideMap side map).sideMap side' =
      if side' = side then map else book.sideMap side' := by
  split_ifs with h
  · rw [h, sideMap_setSideMap_self]
  · exact sideMap_setSideMap_of_ne book h map

theorem symbol_setSideMap (book : OrderBook P) (side : OrderSide) (map : PriceMap P) :
    (book.setSideMap side map).symbol = book.symbol := by
  cases side <;> rfl

@[simp] theorem setSideMap_sideMap_self (book : OrderBook P) (side : OrderSide) :
    book.setSideMap side (book.sideMap side) = book := by
  cases side <;> rfl

@[simp] theorem setSideMap_setSideMap (book : OrderBook P) (side : OrderSide)
    (map map' : PriceMap P) :
    (book.setSideMap side map).setSideMap side map' = book.setSideMap side map' := by
  cases side <;> rfl

theorem ext_sideMap {book book' : OrderBook P} (hsymbol : book.symbol = book'.symbol)
    (h : ∀ side, book.sideMap side = book'.sideMap side) : book = book' := by
  have hbid := h .buy
  have hask := h .sell
  cases book
  cases book'
  simp only [sideMap] at hbid hask hsymbol
  rw [hsymbol, hbid, hask]

/-- The refresh for one change of the book at the order's own price. -/
def refresh (book : OrderBook P) (action : MDUpdateAction) (order : Order P)
    (entryTime : Timestamp) : MarketDataIncrementalRefresh P where
  targetSessionID := none
  mdReqID := ""
  symbol := book.symbol
  entries := [{
    updateAction := action
    entryType := order.side.entryType
    price := order.price
    size := order.remainingQuantity
    entryTime := entryTime
    entryPosition := 0 }]

section Insert

variable [LT P] [DecidableLT P]

/-- `mBidMap[price].push_back(order)` or the same on the asks, and the refresh
that is published. -/
def insertOrder (book : OrderBook P) (manager : OrderManager P) (ptr : OrderPtr) :
    Option (OrderBook P × MarketDataIncrementalRefresh P) := do
  let order ← manager.deref ptr
  let map := Levels.pushBack order.side.before order.price ptr (book.sideMap order.side)
  return (book.setSideMap order.side map, book.refresh .new order order.timestamp)

end Insert

/-- `std::ranges::find_if` on the ids of a level, with the erasure of what it
finds. -/
def findAndErase (manager : OrderManager P) (orderId : OrderID) :
    PriceLevel → Option (Option OrderPtr × PriceLevel)
  | [] => some (none, [])
  | ptr :: orders => do
      let order ← manager.deref ptr
      if order.coreOrderId = orderId then return (some ptr, orders)
      else
        let (found, orders) ← findAndErase manager orderId orders
        return (found, ptr :: orders)

/-- One of the two loops of `cancelOrder`: the order it finds, and the map
without it. -/
def cancelInMap (manager : OrderManager P) (orderId : OrderID) :
    PriceMap P → Option (Option OrderPtr × PriceMap P)
  | [] => some (none, [])
  | (price, orders) :: map => do
      let (found, orders) ← findAndErase manager orderId orders
      match found with
      | some ptr =>
          -- an emptied level leaves the map, and the loop breaks
          return (some ptr, if orders.isEmpty then map else (price, orders) :: map)
      | none =>
          let (found, map) ← cancelInMap manager orderId map
          return (found, (price, orders) :: map)

/-- The bids are searched first, then the asks; the refresh is published when
the order was found. -/
def cancelOrder (book : OrderBook P) (manager : OrderManager P) (orderId : OrderID)
    (now : Timestamp) : Option (OrderBook P × Option (MarketDataIncrementalRefresh P)) := do
  let (cancelledOrder, bidMap) ← cancelInMap manager orderId book.bidMap
  let (cancelledOrder, askMap) ←
    if cancelledOrder.isSome then pure (cancelledOrder, book.askMap)
    else cancelInMap manager orderId book.askMap
  let book := { book with bidMap := bidMap, askMap := askMap }
  match cancelledOrder with
  | none => return (book, none)
  | some ptr =>
      let order ← manager.deref ptr
      return (book, some (book.refresh .delete order now))

/-! ## Snapshots -/

/-- `totalQty`, which wraps at 64 bits. -/
def totalQuantity (manager : OrderManager P) : PriceLevel → Option Quantity
  | [] => some 0
  | ptr :: orders => do
      let order ← manager.deref ptr
      let totalQty ← totalQuantity manager orders
      return order.remainingQuantity + totalQty

/-- One of the two loops of `publishSnapshot`: an entry for every level that is
not empty, numbered from `position` on. -/
def snapshotEntries (manager : OrderManager P) (entryType : MDEntryType) :
    UInt32 → PriceMap P → Option (List (MarketDataEntry P))
  | _, [] => some []
  | position, (_, []) :: map => snapshotEntries manager entryType position map
  | position, (price, front :: orders) :: map => do
      let totalQty ← totalQuantity manager (front :: orders)
      let first ← manager.deref front
      let entries ← snapshotEntries manager entryType (position + 1) map
      return {
        entryType := entryType
        price := price
        size := totalQty
        entryTime := first.timestamp
        entryPosition := position } :: entries

/-- The session id is narrowed to the 32 bits of a `CompID`. -/
def publishSnapshot (book : OrderBook P) (manager : OrderManager P) (sessionId : SessionID) :
    Option (MarketDataSnapshotFullRefresh P) := do
  let bids ← snapshotEntries manager .bid 1 book.bidMap
  let asks ← snapshotEntries manager .offer 1 book.askMap
  return {
    targetSessionID := sessionId.toUInt32
    mdReqID := ""
    symbol := book.symbol
    entries := bids ++ asks }

end OrderBook

end BetaTrader
