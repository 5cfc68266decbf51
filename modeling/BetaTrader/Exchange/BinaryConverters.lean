import BetaTrader.Common.MarketData
import BetaTrader.Common.Wire
import BetaTrader.Exchange.ExecutionPublisher

/-!
# What the exchange sends to its clients

`ExecutionReportToBinaryConverter`, `MarketDataSnapshotFullRefreshToBinaryConverter`
and `MarketDataIncrementalRefreshToBinaryConverter`.  Each of them writes a body
and a header, counts both for BodyLength, and adds the checksum.
-/

namespace BetaTrader

open Decimal OutboundMessageBuilder

/-- The end of every converter: `finalMessageStream`. -/
def BinaryConverter.finalMessage (beginString : Message) (header body : List (ℕ × Message)) :
    Message :=
  let bodyLength := (ofFields header).length + (ofFields body).length
  ofFields (Wire.sealed ([(Tag.beginString.number, beginString),
    (Tag.bodyLength.number, natText bodyLength)] ++ (header ++ body)))

namespace ExecutionReportToBinaryConverter

def orderStatusToChar : OrderStatus → Char
  | .new => '0'
  | .partiallyFilled => '1'
  | .filled => '2'
  | .cancelled => '4'
  | .rejected => '8'

def orderSideToChar : OrderSide → Char
  | .buy => '1'
  | .sell => '2'

/-- The steps are those of `generateTimestamp`. -/
def timestampToString (ts : Timestamp) : Message := generateTimestamp ts

/-- `bodyStream`. -/
def body (report : ExecutionReport Double) : List (ℕ × Message) :=
  [(Tag.orderID.number, natText report.exchangeOrderId.toNat),
    (Tag.clOrdID.number, report.clientOrderId.toList),
    (Tag.execID, report.executionId.toList),
    (Tag.ordStatus, [orderStatusToChar report.status])] ++
  (if report.text = "" then [] else [(Tag.text.number, report.text.toList)]) ++
  [(Tag.symbol.number, report.symbol.name),
    (Tag.side.number, [orderSideToChar report.side]),
    (Tag.orderQty.number, natText report.orderQuantity.toNat),
    (Tag.cumQty, natText report.cumulativeQuantity.toNat),
    (Tag.leavesQty, natText report.leavesQuantity.toNat),
    (Tag.lastPx, fixedText 4 report.lastPrice),
    (Tag.lastQty, natText report.lastQuantity.toNat),
    (Tag.transactTime.number, timestampToString report.transactionTime)]

/-- `headerStream`. -/
def header (report : ExecutionReport Double) (msgSeqNum : UInt32) (now : Timestamp) :
    List (ℕ × Message) :=
  [(Tag.msgType.number, ['8']),
    (Tag.senderCompID.number, natText report.senderCompId.toNat),
    (Tag.targetCompID.number, natText report.targetCompId.toNat),
    (Tag.msgSeqNum.number, natText msgSeqNum.toNat),
    (Tag.sendingTime.number, timestampToString now)]

def convert (report : ExecutionReport Double) (msgSeqNum : UInt32) (now : Timestamp) : Message :=
  BinaryConverter.finalMessage "FIX.4.4".toList (header report msgSeqNum now) (body report)

end ExecutionReportToBinaryConverter

/-! ## Market data -/

def MDEntryType.toChar : MDEntryType → Char
  | .bid => '0'
  | .offer => '1'
  | .trade => '2'

def MDUpdateAction.toChar : MDUpdateAction → Char
  | .new => '0'
  | .change => '1'
  | .delete => '2'

/-- The header of market data. -/
def BinaryConverter.marketDataHeader (msgType : Char) (targetSessionID msgSeqNum : UInt32)
    (now : Timestamp) : List (ℕ × Message) :=
  [(Tag.msgType.number, [msgType]),
    (Tag.senderCompID.number, "TRADING_CORE".toList),
    (Tag.targetCompID.number, natText targetSessionID.toNat),
    (Tag.msgSeqNum.number, natText msgSeqNum.toNat),
    (Tag.sendingTime.number, generateTimestamp now)]

namespace MarketDataSnapshotFullRefreshToBinaryConverter

/-- The body of the loop over the entries. -/
def entryFields (entry : MarketDataEntry Double) : List (ℕ × Message) :=
  [(Tag.mdEntryType, [entry.entryType.toChar]),
    (Tag.mdEntryPx, fixedText 4 entry.price),
    (Tag.mdEntrySize, natText entry.size.toNat)] ++
  (if 0 < entry.entryPosition then
    [(Tag.mdEntryPositionNo, natText entry.entryPosition.toNat)] else [])

/-- `bodyStream`. -/
def body (snapshot : MarketDataSnapshotFullRefresh Double) : List (ℕ × Message) :=
  (if snapshot.mdReqID = "" then [] else [(Tag.mdReqID.number, snapshot.mdReqID.toList)]) ++
  [(Tag.symbol.number, snapshot.symbol.name),
    (Tag.noMDEntries, natText snapshot.entries.length)] ++
  snapshot.entries.flatMap entryFields

def convert (snapshot : MarketDataSnapshotFullRefresh Double) (msgSeqNum : UInt32)
    (now : Timestamp) : Message :=
  BinaryConverter.finalMessage "FIXT.1.1".toList
    (BinaryConverter.marketDataHeader 'W' snapshot.targetSessionID msgSeqNum now) (body snapshot)

end MarketDataSnapshotFullRefreshToBinaryConverter

namespace MarketDataIncrementalRefreshToBinaryConverter

/-- `%H:%M:%S` and the milliseconds. -/
def timeOfDay (now : Timestamp) : Message :=
  let tm := Calendar.gmtime (now.tdiv 1000000000)
  let ms := (now.tdiv 1000000).tmod 1000
  pad 2 (intText tm.hour) ++ ':' :: (pad 2 (intText tm.minute) ++ ':' ::
    (pad 2 (intText tm.second) ++ '.' :: pad 3 (intText ms)))

/-- The body of the loop over the entries; the symbol is that of the refresh. -/
def entryFields (symbol : Instrument) (entry : MarketDataIncrementalEntry Double)
    (now : Timestamp) : List (ℕ × Message) :=
  [(Tag.mdUpdateAction, [entry.updateAction.toChar]),
    (Tag.mdEntryType, [entry.entryType.toChar]),
    (Tag.symbol.number, symbol.name),
    (Tag.mdEntryPx, fixedText 4 entry.price),
    (Tag.mdEntrySize, natText entry.size.toNat),
    (Tag.mdEntryTime, timeOfDay now)]

/-- `bodyStream`; the clock is read for every entry. -/
def body (refresh : MarketDataIncrementalRefresh Double) (clock : Clock) : List (ℕ × Message) :=
  (if refresh.mdReqID = "" then [] else [(Tag.mdReqID.number, refresh.mdReqID.toList)]) ++
  [(Tag.noMDEntries, natText refresh.entries.length)] ++
  refresh.entries.zipIdx.flatMap fun e => entryFields refresh.symbol e.1 (clock e.2)

/-- The publisher has set the session before it sends. -/
def convert (refresh : MarketDataIncrementalRefresh Double) (msgSeqNum : UInt32) (clock : Clock) :
    Message :=
  BinaryConverter.finalMessage "FIXT.1.1".toList
    (BinaryConverter.marketDataHeader 'X' (refresh.targetSessionID.getD 0) msgSeqNum
      (clock refresh.entries.length)) (body refresh clock)

end MarketDataIncrementalRefreshToBinaryConverter

/-! ## TransactTime -/

namespace ExecutionReportToBinaryConverter

/-- The encoder writes UTC and the decoder reads local time: a time comes back
exactly when local time is UTC. -/
theorem parseTimestamp_timestampToString_iff {ts : ℤ} (hfirst : 0 ≤ ts)
    (hlast : ts < FixUtils.endOfYears * 1000000000) (utcOffset : ℤ) :
    FixUtils.parseTimestamp utcOffset (timestampToString ts) = some (ts / 1000000 * 1000000) ↔
      utcOffset = 0 := by
  have hparse := FixUtils.parseTimestamp_generateTimestamp hfirst hlast utcOffset
  rw [timestampToString, hparse, Option.some.injEq]
  omega

theorem parseTimestamp_timestampToString_iff_sample :
    FixUtils.parseTimestamp 0 (timestampToString 1) = some (1 / 1000000 * 1000000) ↔
      (0 : ℤ) = 0 :=
  parseTimestamp_timestampToString_iff (by decide) (by decide) 0

/-- An hour east of UTC the epoch comes back as an hour before it. -/
theorem transactTime_moved : ¬∀ ts utcOffset : ℤ,
    0 ≤ ts → ts < FixUtils.endOfYears * 1000000000 →
    FixUtils.parseTimestamp utcOffset (timestampToString ts) =
      some (ts / 1000000 * 1000000) := by
  intro h
  have hmoved := h 0 3600 (by decide) (by decide)
  revert hmoved
  decide +kernel

end ExecutionReportToBinaryConverter

end BetaTrader
