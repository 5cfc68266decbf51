import BetaTrader.Common.FixUtils

/-!
# From messages to requests

The three order converters of the gateway.  Every exception ends in
`std::nullopt`, so `none` is the answer of the converter as well as an exception
inside it.
-/

namespace BetaTrader

structure OrderRequest where
  senderCompID : String
  clientOrderId : ClientOrderID
  symbol : Instrument
  side : OrderSide
  quantity : Quantity
  price : Double
  deriving DecidableEq

structure CancelOrderRequest where
  clOrdID : ClientOrderID
  origClOrdID : ClientOrderID
  orderID : OrderID
  symbol : Instrument
  side : OrderSide
  transactTime : Timestamp
  deriving DecidableEq

structure ModifyOrderRequest where
  clOrdID : ClientOrderID
  origClOrdID : ClientOrderID
  orderID : OrderID
  symbol : Instrument
  side : OrderSide
  orderQty : Quantity
  ordType : OrderType
  price : Double
  transactTime : Timestamp
  deriving DecidableEq

open FixUtils

/-- `std::stoull` of a field. -/
def stoull (value : Message) : Option UInt64 :=
  (Strtoul.stoul (String.ofList value)).map UInt64.ofNat

/-- `tagMap.contains(OrderID) ? stoull(...) : 0`. -/
def FixUtils.TagMap.orderID (tagMap : TagMap) : Option OrderID :=
  match tagMap.get .orderID with
  | none => some 0
  | some value => stoull value

namespace BinaryToOrderRequestConverter

/-- The message is refused when it does not state a checksum, or not its own. -/
def checkChecksum (fixMessage : Message) : Option Unit := do
  let checksumTag := soh :: Decimal.natText Tag.checkSum.number ++ ['=']
  let (messageUpToChecksum, value) ← Text.splitLast checksumTag fixMessage
  let expectedChecksum ← Strtoul.stoi value
  let calculatedChecksum := ((messageUpToChecksum ++ [soh]).map Char.toNat).sum % 256
  if (calculatedChecksum : ℤ) = expectedChecksum then some () else none

def convert (fixMessage : Message) : Option OrderRequest := do
  checkChecksum fixMessage
  let tagMap ← splitToMap fixMessage soh
  let senderCompID ← tagMap.get .senderCompID
  let clOrdID ← tagMap.get .clOrdID
  let symbol ← (tagMap.get .symbol).bind Instrument.fromString
  let side ← (tagMap.get .side).bind fun value => charToOrderSide (front value)
  let quantity ← (tagMap.get .orderQty).bind stoull
  let price ← (tagMap.get .price).bind Double.stod
  return {
    senderCompID := String.ofList senderCompID
    clientOrderId := String.ofList clOrdID
    symbol := symbol
    side := side
    quantity := quantity
    price := price }

end BinaryToOrderRequestConverter

def BinaryToCancelOrderRequestConverter.convert (utcOffset : ℤ) (fixMessage : Message) :
    Option CancelOrderRequest := do
  let tagMap ← splitToMap fixMessage soh
  let clOrdID ← tagMap.get .clOrdID
  let orderID ← tagMap.orderID
  let symbol ← (tagMap.get .symbol).bind Instrument.fromString
  let side ← (tagMap.get .side).bind fun value => charToOrderSide (front value)
  let transactTime ← (tagMap.get .transactTime).bind (parseTimestamp utcOffset)
  return {
    clOrdID := String.ofList clOrdID
    origClOrdID := String.ofList ((tagMap.get .origClOrdID).getD [])
    orderID := orderID
    symbol := symbol
    side := side
    transactTime := transactTime }

def BinaryToModifyOrderRequestConverter.convert (utcOffset : ℤ) (fixMessage : Message) :
    Option ModifyOrderRequest := do
  let tagMap ← splitToMap fixMessage soh
  let clOrdID ← tagMap.get .clOrdID
  let origClOrdID ← tagMap.get .origClOrdID
  let orderID ← tagMap.orderID
  let symbol ← (tagMap.get .symbol).bind Instrument.fromString
  let side ← (tagMap.get .side).bind fun value => charToOrderSide (front value)
  let orderQty ← (tagMap.get .orderQty).bind stoull
  let ordType ← (tagMap.get .ordType).bind fun value => charToOrderType (front value)
  let price ← (tagMap.get .price).bind Double.stod
  let transactTime ← (tagMap.get .transactTime).bind (parseTimestamp utcOffset)
  return {
    clOrdID := String.ofList clOrdID
    origClOrdID := String.ofList origClOrdID
    orderID := orderID
    symbol := symbol
    side := side
    orderQty := orderQty
    ordType := ordType
    price := price
    transactTime := transactTime }

end BetaTrader
