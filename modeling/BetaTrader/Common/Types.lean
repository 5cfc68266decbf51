import BetaTrader.Lib.Double
import Mathlib.Algebra.Order.Group.Unbundled.Abs
import Mathlib.Algebra.Order.Ring.Rat

/-!
# Common types

The enumerations and the aliases of `common/Types.h` and `common/Instrument.h`.
A price is a `double`; the engine only compares prices and measures their
deviation, and the operations it needs for that are collected in `PriceArith`.
Finite prices form a linear order.
-/

namespace BetaTrader

inductive Instrument where
  | eurusd | usdjpy | gbpusd | usdcad | usdinr | eurinr | gbpinr | audusd | usdmxn
  deriving DecidableEq, Repr

namespace Instrument

/-- The enumerators, in the order of `symbol_names`. -/
def all : List Instrument :=
  [eurusd, usdjpy, gbpusd, usdcad, usdinr, eurinr, gbpinr, audusd, usdmxn]

theorem mem_all (symbol : Instrument) : symbol ∈ all := by
  cases symbol <;> decide

/-- The entry of `symbol_names`. -/
def name : Instrument → List Char
  | eurusd => "EURUSD".toList
  | usdjpy => "USDJPY".toList
  | gbpusd => "GBPUSD".toList
  | usdcad => "USDCAD".toList
  | usdinr => "USDINR".toList
  | eurinr => "EURINR".toList
  | gbpinr => "GBPINR".toList
  | audusd => "AUDUSD".toList
  | usdmxn => "USDMXN".toList

/-- `common::from_string`; `none` stands for the exception. -/
def fromString (s : List Char) : Option Instrument := all.find? fun symbol => symbol.name = s

theorem fromString_name (symbol : Instrument) : fromString symbol.name = some symbol := by
  cases symbol <;> decide

theorem name_of_fromString {s : List Char} {symbol : Instrument}
    (h : fromString s = some symbol) : s = symbol.name := by
  have hname := List.find?_some h
  exact (of_decide_eq_true hname).symm

end Instrument

inductive OrderSide where
  | buy
  | sell
  deriving DecidableEq, Repr

inductive OrderType where
  | limit
  | market
  /-- Declared, but not implemented by the engine. -/
  | stop
  | stopLimit
  deriving DecidableEq, Repr

inductive OrderStatus where
  | new
  | partiallyFilled
  | filled
  | cancelled
  | rejected
  deriving DecidableEq, Repr

/-- The entry of `order_status_names`. -/
def OrderStatus.name : OrderStatus → List Char
  | .new => "New".toList
  | .partiallyFilled => "PartiallyFilled".toList
  | .filled => "Filled".toList
  | .cancelled => "Cancelled".toList
  | .rejected => "Rejected".toList

inductive TimeInForce where
  | day
  | gtc
  | ioc
  | fok
  | moo
  | moc
  deriving DecidableEq, Repr

abbrev Quantity := UInt64

abbrev OrderID := UInt64

/-- The id counter is a 64-bit atomic that no run exhausts. -/
abbrev TradeID := ℕ

abbrev SessionID := UInt64

abbrev ClientOrderID := String

abbrev ClientID := String

/-- Nanoseconds since the epoch. -/
abbrev Timestamp := ℤ

/-- The successive readings of `system_clock::now()`. -/
abbrev Clock := ℕ → Timestamp

namespace OrderSide

def opposite : OrderSide → OrderSide
  | .buy => .sell
  | .sell => .buy

@[simp] theorem opposite_opposite (side : OrderSide) : side.opposite.opposite = side := by
  cases side <;> rfl

theorem opposite_ne (side : OrderSide) : side.opposite ≠ side := by
  cases side <;> decide

end OrderSide

/-- The part of `double` arithmetic that the engine applies to prices. -/
class PriceArith (P : Type) extends LE P, LT P, Zero P, Sub P, Div P where
  abs : P → P
  /-- `MAX_PRICE_DEVIATION`, 10%. -/
  maxPriceDeviation : P
  toDecidableLE : DecidableLE P
  toDecidableLT : DecidableLT P

attribute [reducible, instance] PriceArith.toDecidableLE PriceArith.toDecidableLT

/-- Prices without infinities and NaN.  Nothing is assumed about the results of
subtraction and division, so the rounding of `double` is covered. -/
class FinitePrice (P : Type) extends LinearOrder P, PriceArith P

instance : FinitePrice ℚ :=
  { (inferInstance : LinearOrder ℚ), (inferInstance : Zero ℚ), (inferInstance : Sub ℚ),
    (inferInstance : Div ℚ) with
    abs := fun x => |x|
    maxPriceDeviation := 1 / 10 }

/-- The prices that come over the wire may be infinite or NaN. -/
instance : PriceArith Double where
  abs := Double.abs
  maxPriceDeviation := .finite (1 / 10)
  toDecidableLE := inferInstance
  toDecidableLT := inferInstance

/-- The order of a side's map: bids by falling price (`std::greater`), asks by
rising price. -/
def OrderSide.before {P : Type} [LT P] : OrderSide → P → P → Prop
  | .buy, a, b => b < a
  | .sell, a, b => a < b

instance OrderSide.decidableBefore {P : Type} [LT P] [DecidableLT P] (side : OrderSide) :
    DecidableRel (side.before (P := P)) :=
  match side with
  | .buy => fun a b => inferInstanceAs (Decidable (b < a))
  | .sell => fun a b => inferInstanceAs (Decidable (a < b))

instance OrderSide.isStrictTotalOrder_before {P : Type} [LinearOrder P] (side : OrderSide) :
    IsStrictTotalOrder P side.before :=
  match side with
  | .buy => inferInstanceAs (IsStrictTotalOrder P (· > ·))
  | .sell => inferInstanceAs (IsStrictTotalOrder P (· < ·))

/-! ## Quantities -/

namespace Quantity

theorem pos_iff {a : Quantity} : 0 < a ↔ 0 < a.toNat := by
  rw [UInt64.lt_iff_toNat_lt, UInt64.toNat_zero]

theorem eq_zero_iff {a : Quantity} : a = 0 ↔ a.toNat = 0 := by
  rw [← UInt64.toNat_inj, UInt64.toNat_zero]

end Quantity

end BetaTrader
