import BetaTrader.Common.Types
import Mathlib.Tactic.Simps.Basic

/-!
# Orders and trades

`common::Order` with its setters, and `common::Trade`.
-/

namespace BetaTrader

structure Order (P : Type) where
  clientOrderId : ClientOrderID
  coreOrderId : OrderID
  symbol : Instrument
  clientId : ClientID
  senderCompID : String
  side : OrderSide
  orderType : OrderType
  timeInForce : TimeInForce
  originalQuantity : Quantity
  remainingQuantity : Quantity
  price : P
  timestamp : Timestamp
  status : OrderStatus
  deriving DecidableEq

structure Trade (P : Type) where
  tradeId : TradeID
  orderSymbol : Instrument
  buyOrderId : OrderID
  sellOrderId : OrderID
  quantity : Quantity
  price : P
  timestamp : Timestamp
  deriving DecidableEq

namespace Order

variable {P : Type}

@[simps]
def setRemainingQuantity (order : Order P) (qty : Quantity) : Order P :=
  { order with remainingQuantity := qty }

@[simps]
def setStatus (order : Order P) (status : OrderStatus) : Order P :=
  { order with status := status }

@[simps]
def setPrice (order : Order P) (price : P) : Order P :=
  { order with price := price }

/-- Sets the original and the remaining quantity. -/
@[simps]
def setOriginalQuantity (order : Order P) (qty : Quantity) : Order P :=
  { order with originalQuantity := qty, remainingQuantity := qty }

/-- The constructor. -/
def create (clientOrderId : ClientOrderID) (coreOrderId : OrderID) (symbol : Instrument)
    (clientId : ClientID) (senderCompID : String) (side : OrderSide) (orderType : OrderType)
    (timeInForce : TimeInForce) (quantity : Quantity) (price : P) (timestamp : Timestamp) :
    Order P where
  clientOrderId := clientOrderId
  coreOrderId := coreOrderId
  symbol := symbol
  clientId := clientId
  senderCompID := senderCompID
  side := side
  orderType := orderType
  timeInForce := timeInForce
  originalQuantity := quantity
  remainingQuantity := quantity
  price := price
  timestamp := timestamp
  status := .new

/-- What the constructor guarantees. -/
def IsNew (order : Order P) : Prop :=
  order.remainingQuantity = order.originalQuantity ∧ order.status = .new

theorem isNew_create (clientOrderId : ClientOrderID) (coreOrderId : OrderID)
    (symbol : Instrument) (clientId : ClientID) (senderCompID : String) (side : OrderSide)
    (orderType : OrderType) (timeInForce : TimeInForce) (quantity : Quantity) (price : P)
    (timestamp : Timestamp) :
    (create clientOrderId coreOrderId symbol clientId senderCompID side orderType timeInForce
      quantity price timestamp).IsNew :=
  ⟨rfl, rfl⟩

end Order

namespace Trade

variable {P : Type}

/-- The quantity the trade takes from the order `id`. -/
def takes (trade : Trade P) (id : OrderID) : ℕ :=
  if trade.buyOrderId = id ∨ trade.sellOrderId = id then trade.quantity.toNat else 0

end Trade

end BetaTrader
