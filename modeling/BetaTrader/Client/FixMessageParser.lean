import BetaTrader.Common.MarketData
import BetaTrader.Common.Wire
import BetaTrader.Exchange.ExecutionPublisher

/-!
# The client's parser

`FixMessageParser` turns a message into a report, a snapshot or an incremental
refresh.  In the functions below `none` stands for an exception, and `parse`
catches all of them.
-/

namespace BetaTrader

/-- An entry of an incremental refresh; the action is the character that was
read. -/
structure ParsedIncrementalEntry where
  updateAction : Char
  entryType : MDEntryType
  price : Double
  size : Quantity
  entryPosition : UInt32
  deriving DecidableEq

/-- An incremental refresh; the symbol is set by the last entry that has one. -/
structure ParsedIncrementalRefresh where
  mdReqID : String
  symbol : Option Instrument
  entries : List ParsedIncrementalEntry
  deriving DecidableEq

inductive ParsedFixMessage where
  | monostate
  | executionReport (report : ExecutionReport Double)
  | snapshot (snapshot : MarketDataSnapshotFullRefresh Double)
  | incremental (refresh : ParsedIncrementalRefresh)

/-- A character that is neither a bid's nor an offer's; the client's book passes
over such entries as over trades. -/
def MDEntryType.ofChar (c : Char) : MDEntryType :=
  if c = '0' then .bid else if c = '1' then .offer else .trade

namespace FixMessageParser

open FixUtils

def getStr (tagMap : TagMap) (tag : ℕ) : Message := (tagMap tag).getD []

/-- `[0]` of a `std::string`, which ends in a null. -/
def first (s : Message) : Char := s.headD (Char.ofNat 0)

/-- `std::stoull`. -/
def stoull (s : Message) : Option UInt64 := (Strtoul.stoul (String.ofList s)).map UInt64.ofNat

/-- An empty text is not converted. -/
def orZero {α : Type} (zero : α) (convert : Message → Option α) (s : Message) : Option α :=
  if s = [] then some zero else convert s

theorem orZero_of_ne_nil {α : Type} {zero : α} {convert : Message → Option α} {s : Message}
    (h : s ≠ []) : orZero zero convert s = convert s :=
  if_neg h

/-- The `switch` over the character of OrdStatus. -/
def charToOrderStatus (c : Char) : Option OrderStatus :=
  if c = '0' then some .new
  else if c = '1' then some .partiallyFilled
  else if c = '2' then some .filled
  else if c = '4' then some .cancelled
  else if c = '8' then some .rejected
  else none

def parseExecutionReport (utcOffset : ℤ) (fixMessage : Message) :
    Option (ExecutionReport Double) := do
  let tagMap ← splitToMap fixMessage soh
  let msgSeqNum ← stoull (getStr tagMap Tag.msgSeqNum.number)
  let exchangeOrderId ← stoull (getStr tagMap Tag.orderID.number)
  let status ← charToOrderStatus (first (getStr tagMap Tag.ordStatus))
  let symbol ← Instrument.fromString (getStr tagMap Tag.symbol.number)
  let side ← charToOrderSide (first (getStr tagMap Tag.side.number))
  let orderQty ← stoull (getStr tagMap Tag.orderQty.number)
  let cumQty ← stoull (getStr tagMap Tag.cumQty)
  let leavesQty ← stoull (getStr tagMap Tag.leavesQty)
  let lastPrice ← orZero (.finite 0) Double.stod (getStr tagMap Tag.lastPx)
  let lastQty ← orZero 0 stoull (getStr tagMap Tag.lastQty)
  let transactTime ← parseTimestamp utcOffset (getStr tagMap Tag.transactTime.number)
  return {
    senderCompId := 0
    targetCompId := 0
    messageSequenceNumber := msgSeqNum
    exchangeOrderId := exchangeOrderId
    clientOrderId := String.ofList (getStr tagMap Tag.clOrdID.number)
    executionId := String.ofList (getStr tagMap Tag.execID)
    status := status
    text := String.ofList (getStr tagMap Tag.text.number)
    symbol := symbol
    side := side
    orderQuantity := orderQty
    cumulativeQuantity := cumQty
    leavesQuantity := leavesQty
    lastPrice := lastPrice
    lastQuantity := lastQty
    transactionTime := transactTime }

/-! ## Repeating groups -/

/-- The fields of a block that both kinds of entries have, where the block has
them: the price, the size and the position. -/
def blockValues (blockMap : TagMap) : Option (Double × Quantity × UInt32) := do
  let price ← (blockMap Tag.mdEntryPx).elim (some (.finite 0)) Double.stod
  let size ← (blockMap Tag.mdEntrySize).elim (some 0) stoull
  let position ← (blockMap Tag.mdEntryPositionNo).elim (some 0) Strtoul.stoi
  return (price, size, UInt32.ofInt position)

/-- What stands between `pos` and the next `mark` is a block; the character behind
the first mark comes with it.  The text from the next mark on is what remains. -/
def nextBlock (mark rest : Message) : Option (Char × Message × Message) :=
  match Text.afterFirst mark rest with
  | none => some (Char.ofNat 0, Text.cutFirst mark rest)
  | some behind =>
      -- `substr` throws when `pos` is past the end
      if behind.length < 2 then none
      else some (first behind, Text.cutFirst mark (behind.drop 2))

/-- The loop of `parseMarketDataSnapshot`. -/
def snapshotEntries : ℕ → Message → Option (List (MarketDataEntry Double))
  | 0, _ => some []
  | n + 1, rest => do
      let (type, block, rest) ← nextBlock "269=".toList rest
      let blockMap ← splitToMap block soh
      let (price, size, position) ← blockValues blockMap
      let entries ← snapshotEntries n rest
      return {
        entryType := .ofChar type
        price := price
        size := size
        entryTime := 0
        entryPosition := position } :: entries

def parseMarketDataSnapshot (fixMessage : Message) :
    Option (MarketDataSnapshotFullRefresh Double) := do
  let tagMap ← splitToMap fixMessage soh
  let mdReqID := String.ofList (getStr tagMap Tag.mdReqID.number)
  let symbol ← Instrument.fromString (getStr tagMap Tag.symbol.number)
  let noMdEntriesStr := getStr tagMap Tag.noMDEntries
  if noMdEntriesStr = [] then
    return { targetSessionID := 0, mdReqID := mdReqID, symbol := symbol, entries := [] }
  else
    let noMdEntries ← Strtoul.stoi noMdEntriesStr
    let startTag := "268=".toList ++ noMdEntriesStr ++ [soh]
    let entries ← (Text.afterFirst startTag fixMessage).elim (some [])
      (snapshotEntries noMdEntries.toNat)
    return { targetSessionID := 0, mdReqID := mdReqID, symbol := symbol, entries := entries }

/-- The loop of `parseMarketDataIncremental`, with the last symbol. -/
def incrementalEntries : ℕ → Option Instrument → Message →
    Option (Option Instrument × List ParsedIncrementalEntry)
  | 0, symbol, _ => some (symbol, [])
  | n + 1, symbol, rest => do
      let (action, block, rest) ← nextBlock "279=".toList rest
      let blockMap ← splitToMap block soh
      let symbol ← (blockMap Tag.symbol.number).elim (some symbol)
        fun name => (Instrument.fromString name).map some
      let type := (blockMap Tag.mdEntryType).elim (Char.ofNat 0) front
      let (price, size, position) ← blockValues blockMap
      let (symbol, entries) ← incrementalEntries n symbol rest
      return (symbol, {
        updateAction := action
        entryType := .ofChar type
        price := price
        size := size
        entryPosition := position } :: entries)

def parseMarketDataIncremental (fixMessage : Message) : Option ParsedIncrementalRefresh := do
  let tagMap ← splitToMap fixMessage soh
  let mdReqID := String.ofList (getStr tagMap Tag.mdReqID.number)
  let noMdEntriesStr := getStr tagMap Tag.noMDEntries
  if noMdEntriesStr = [] then return { mdReqID := mdReqID, symbol := none, entries := [] }
  else
    let noMdEntries ← Strtoul.stoi noMdEntriesStr
    let startTag := "268=".toList ++ noMdEntriesStr ++ [soh]
    let (symbol, entries) ← (Text.afterFirst startTag fixMessage).elim (some (none, []))
      (incrementalEntries noMdEntries.toNat none)
    return { mdReqID := mdReqID, symbol := symbol, entries := entries }

/-! ## Messages -/

/-- The checksum of the text before the last checksum field is the number in
it. -/
def checkChecksum (fixMessage : Message) : Option Unit := do
  let checksumTag := soh :: Decimal.natText Tag.checkSum.number ++ ['=']
  let (before, behind) ← Text.splitLast checksumTag fixMessage
  let expectedChecksum ← Strtoul.stoi behind
  if (Wire.checksum (before ++ [soh]) : ℤ) = expectedChecksum then some () else none

/-- What is returned before the end and what is thrown alike leave the
`monostate`. -/
def parse (utcOffset : ℤ) (fixMessage : Message) : ParsedFixMessage :=
  (show Option ParsedFixMessage from do
    checkChecksum fixMessage
    let tagMap ← splitToMap fixMessage soh
    let msgType ← (tagMap Tag.msgType.number).bind List.head?
    if msgType = '8' then
      return .executionReport (← parseExecutionReport utcOffset fixMessage)
    else if msgType = 'W' then
      return .snapshot (← parseMarketDataSnapshot fixMessage)
    else if msgType = 'X' then
      return .incremental (← parseMarketDataIncremental fixMessage)
    else none).getD .monostate

end FixMessageParser

end BetaTrader
