import BetaTrader.Common.Types

/-!
# Market data messages

The snapshot and the incremental refresh of `common_fix`, which the exchange
publishes and the client applies to its own book.
-/

namespace BetaTrader

inductive MDUpdateAction where
  | new
  | change
  | delete
  deriving DecidableEq, Repr

inductive MDEntryType where
  | bid
  | offer
  | trade
  deriving DecidableEq, Repr

structure MarketDataIncrementalEntry (P : Type) where
  updateAction : MDUpdateAction
  entryType : MDEntryType
  price : P
  size : Quantity
  entryTime : Timestamp
  entryPosition : UInt32

structure MarketDataIncrementalRefresh (P : Type) where
  /-- Unset until the publisher addresses a session. -/
  targetSessionID : Option UInt32
  mdReqID : String
  symbol : Instrument
  entries : List (MarketDataIncrementalEntry P)

structure MarketDataEntry (P : Type) where
  entryType : MDEntryType
  price : P
  size : Quantity
  entryTime : Timestamp
  entryPosition : UInt32

structure MarketDataSnapshotFullRefresh (P : Type) where
  targetSessionID : UInt32
  mdReqID : String
  symbol : Instrument
  entries : List (MarketDataEntry P)

end BetaTrader
