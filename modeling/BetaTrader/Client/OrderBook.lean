import BetaTrader.Common.MarketData
import Mathlib.Logic.Function.Basic

/-!
# The client's order book

`orderbook::OrderBook` keeps one quantity for each price of a side.  The two
`std::map`s are the functions they represent; only the display iterates over
them.
-/

namespace BetaTrader

namespace Client

structure OrderBook (P : Type) where
  mBids : P → Option Quantity
  mAsks : P → Option Quantity

namespace OrderBook

variable {P : Type} [DecidableEq P]

/-- The body of `updateLevel` on the map of a side. -/
def updateMap (map : P → Option Quantity) (price : P) (qty : Quantity)
    (action : MDUpdateAction) : P → Option Quantity :=
  let map := match action with
    | .new | .change => Function.update map price (some qty)
    | .delete => Function.update map price none
  if action ≠ .delete ∧ qty = 0 then Function.update map price none else map

/-- Every entry that is not a bid counts as an offer. -/
def updateLevel (book : OrderBook P) (type : MDEntryType) (price : P) (qty : Quantity)
    (action : MDUpdateAction) : OrderBook P :=
  if type = .bid then { book with mBids := updateMap book.mBids price qty action }
  else { book with mAsks := updateMap book.mAsks price qty action }

def handleIncremental (book : OrderBook P) (refresh : MarketDataIncrementalRefresh P) :
    OrderBook P :=
  refresh.entries.foldl
    (fun book entry => book.updateLevel entry.entryType entry.price entry.size entry.updateAction)
    book

/-- The body of the loop of `handleSnapshot`. -/
def setLevel (book : OrderBook P) (entry : MarketDataEntry P) : OrderBook P :=
  match entry.entryType with
  | .bid => { book with mBids := Function.update book.mBids entry.price (some entry.size) }
  | .offer => { book with mAsks := Function.update book.mAsks entry.price (some entry.size) }
  | .trade => book

/-- Both maps are cleared, so that nothing of the book before is left. -/
def handleSnapshot (_book : OrderBook P) (snapshot : MarketDataSnapshotFullRefresh P) :
    OrderBook P :=
  snapshot.entries.foldl setLevel ⟨fun _ => none, fun _ => none⟩

/-- The map that mirrors a side of the exchange's book. -/
def sideMap (book : OrderBook P) : OrderSide → P → Option Quantity
  | .buy => book.mBids
  | .sell => book.mAsks

end OrderBook

end Client

end BetaTrader
