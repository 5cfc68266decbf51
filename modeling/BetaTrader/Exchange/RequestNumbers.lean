import BetaTrader.Common.OutboundMessageBuilder
import BetaTrader.Exchange.FramingSpec
import BetaTrader.Exchange.OrderRequestConverter

/-!
# Numbers in requests

The three order converters read OrderQty and OrderID with `std::stoull`, which skips
white space, takes a sign and stops at the first character that is not a digit.  What
it accepts means what it says only if it is digits.
-/

namespace BetaTrader

open FixUtils FixMessageFramer

/-- A text of digits. -/
def IsDigits (value : Message) : Prop := value ≠ [] ∧ ∀ c ∈ value, c.isDigit = true

namespace RequestNumbers

/-- The message has a field with the tag, and it says this number. -/
def Says (fixMessage : Message) (tag : Tag) (n : UInt64) : Prop :=
  ∃ tagMap value, splitToMap fixMessage soh = some tagMap ∧ tagMap.get tag = some value ∧
    IsNumber value n.toNat

/-- If the message has a field with the tag, it says this number. -/
def SaysIfPresent (fixMessage : Message) (tag : Tag) (n : UInt64) : Prop :=
  ∀ tagMap value, splitToMap fixMessage soh = some tagMap → tagMap.get tag = some value →
    IsNumber value n.toNat

/-- What the three converters take for the numbers of a message is what it says. -/
structure MeanWhatTheySay (utcOffset : ℤ) (fixMessage : Message) : Prop where
  newOrder : ∀ request, BinaryToOrderRequestConverter.convert fixMessage = some request →
    Says fixMessage .orderQty request.quantity
  cancel : ∀ request,
    BinaryToCancelOrderRequestConverter.convert utcOffset fixMessage = some request →
      SaysIfPresent fixMessage .orderID request.orderID
  replace : ∀ request,
    BinaryToModifyOrderRequestConverter.convert utcOffset fixMessage = some request →
      Says fixMessage .orderQty request.orderQty ∧
        SaysIfPresent fixMessage .orderID request.orderID

/-! ## What else the converters ask for -/

/-- All that a new order needs besides its quantity. -/
structure AsksNewOrder (fixMessage : Message) (tagMap : TagMap) : Prop where
  checksum : BinaryToOrderRequestConverter.checkChecksum fixMessage = some ()
  fields : splitToMap fixMessage soh = some tagMap
  senderCompID : (tagMap.get .senderCompID).isSome
  clOrdID : (tagMap.get .clOrdID).isSome
  symbol : ((tagMap.get .symbol).bind Instrument.fromString).isSome
  side : ((tagMap.get .side).bind fun value => charToOrderSide (front value)).isSome
  price : ((tagMap.get .price).bind Double.stod).isSome

/-- All that a cancel request needs besides the id. -/
structure AsksCancel (utcOffset : ℤ) (fixMessage : Message) (tagMap : TagMap) : Prop where
  fields : splitToMap fixMessage soh = some tagMap
  clOrdID : (tagMap.get .clOrdID).isSome
  symbol : ((tagMap.get .symbol).bind Instrument.fromString).isSome
  side : ((tagMap.get .side).bind fun value => charToOrderSide (front value)).isSome
  transactTime : ((tagMap.get .transactTime).bind (parseTimestamp utcOffset)).isSome

/-- All that a replace request needs besides its quantity and the id. -/
structure AsksReplace (utcOffset : ℤ) (fixMessage : Message) (tagMap : TagMap) : Prop
    extends AsksCancel utcOffset fixMessage tagMap where
  origClOrdID : (tagMap.get .origClOrdID).isSome
  ordType : ((tagMap.get .ordType).bind fun value => charToOrderType (front value)).isSome
  price : ((tagMap.get .price).bind Double.stod).isSome

variable {utcOffset : ℤ} {fixMessage value : Message} {n id : UInt64} {tagMap : TagMap}

/-- The quantity of a new order. -/
theorem newOrder_iff : (∃ request,
    BinaryToOrderRequestConverter.convert fixMessage = some request ∧ request.quantity = n) ↔
      ∃ tagMap value, AsksNewOrder fixMessage tagMap ∧ tagMap.get .orderQty = some value ∧
        stoull value = some n := by
  constructor
  · rintro ⟨request, hrequest, rfl⟩
    obtain ⟨_, hchecksum, hrequest⟩ := Option.bind_eq_some_iff.mp hrequest
    obtain ⟨tagMap, hmap, hrequest⟩ := Option.bind_eq_some_iff.mp hrequest
    obtain ⟨sender, hsender, hrequest⟩ := Option.bind_eq_some_iff.mp hrequest
    obtain ⟨clOrdID, hclOrdID, hrequest⟩ := Option.bind_eq_some_iff.mp hrequest
    obtain ⟨symbol, hsymbol, hrequest⟩ := Option.bind_eq_some_iff.mp hrequest
    obtain ⟨side, hside, hrequest⟩ := Option.bind_eq_some_iff.mp hrequest
    obtain ⟨quantity, hquantity, hrequest⟩ := Option.bind_eq_some_iff.mp hrequest
    obtain ⟨price, hprice, hrequest⟩ := Option.bind_eq_some_iff.mp hrequest
    obtain ⟨value, hvalue, hnumber⟩ := Option.bind_eq_some_iff.mp hquantity
    rw [← Option.some.inj hrequest]
    have hasks : AsksNewOrder fixMessage tagMap :=
      { checksum := hchecksum
        fields := hmap
        senderCompID := Option.isSome_of_eq_some hsender
        clOrdID := Option.isSome_of_eq_some hclOrdID
        symbol := Option.isSome_of_eq_some hsymbol
        side := Option.isSome_of_eq_some hside
        price := Option.isSome_of_eq_some hprice }
    exact ⟨tagMap, value, hasks, hvalue, hnumber⟩
  · rintro ⟨tagMap, value, hasks, hvalue, hnumber⟩
    obtain ⟨sender, hsender⟩ := Option.isSome_iff_exists.mp hasks.senderCompID
    obtain ⟨clOrdID, hclOrdID⟩ := Option.isSome_iff_exists.mp hasks.clOrdID
    obtain ⟨symbol, hsymbol⟩ := Option.isSome_iff_exists.mp hasks.symbol
    obtain ⟨side, hside⟩ := Option.isSome_iff_exists.mp hasks.side
    obtain ⟨price, hprice⟩ := Option.isSome_iff_exists.mp hasks.price
    simp [BinaryToOrderRequestConverter.convert, hasks.checksum, hasks.fields, hsender, hclOrdID,
      hsymbol, hside, hvalue, hnumber, hprice]

/-- The id in a cancel request. -/
theorem cancel_iff : (∃ request,
    BinaryToCancelOrderRequestConverter.convert utcOffset fixMessage = some request ∧
      request.orderID = id) ↔
        ∃ tagMap, AsksCancel utcOffset fixMessage tagMap ∧ tagMap.orderID = some id := by
  constructor
  · rintro ⟨request, hrequest, rfl⟩
    obtain ⟨tagMap, hmap, hrequest⟩ := Option.bind_eq_some_iff.mp hrequest
    obtain ⟨clOrdID, hclOrdID, hrequest⟩ := Option.bind_eq_some_iff.mp hrequest
    obtain ⟨orderID, horderID, hrequest⟩ := Option.bind_eq_some_iff.mp hrequest
    obtain ⟨symbol, hsymbol, hrequest⟩ := Option.bind_eq_some_iff.mp hrequest
    obtain ⟨side, hside, hrequest⟩ := Option.bind_eq_some_iff.mp hrequest
    obtain ⟨transactTime, htime, hrequest⟩ := Option.bind_eq_some_iff.mp hrequest
    rw [← Option.some.inj hrequest]
    have hasks : AsksCancel utcOffset fixMessage tagMap :=
      { fields := hmap
        clOrdID := Option.isSome_of_eq_some hclOrdID
        symbol := Option.isSome_of_eq_some hsymbol
        side := Option.isSome_of_eq_some hside
        transactTime := Option.isSome_of_eq_some htime }
    exact ⟨tagMap, hasks, horderID⟩
  · rintro ⟨tagMap, hasks, horderID⟩
    obtain ⟨clOrdID, hclOrdID⟩ := Option.isSome_iff_exists.mp hasks.clOrdID
    obtain ⟨symbol, hsymbol⟩ := Option.isSome_iff_exists.mp hasks.symbol
    obtain ⟨side, hside⟩ := Option.isSome_iff_exists.mp hasks.side
    obtain ⟨transactTime, htime⟩ := Option.isSome_iff_exists.mp hasks.transactTime
    simp [BinaryToCancelOrderRequestConverter.convert, hasks.fields, hclOrdID, horderID, hsymbol,
      hside, htime]

/-- The quantity and the id in a replace request. -/
theorem replace_iff : (∃ request,
    BinaryToModifyOrderRequestConverter.convert utcOffset fixMessage = some request ∧
      request.orderQty = n ∧ request.orderID = id) ↔
        ∃ tagMap value, AsksReplace utcOffset fixMessage tagMap ∧
          tagMap.get .orderQty = some value ∧ stoull value = some n ∧
            tagMap.orderID = some id := by
  constructor
  · rintro ⟨request, hrequest, rfl, rfl⟩
    obtain ⟨tagMap, hmap, hrequest⟩ := Option.bind_eq_some_iff.mp hrequest
    obtain ⟨clOrdID, hclOrdID, hrequest⟩ := Option.bind_eq_some_iff.mp hrequest
    obtain ⟨origClOrdID, horig, hrequest⟩ := Option.bind_eq_some_iff.mp hrequest
    obtain ⟨orderID, horderID, hrequest⟩ := Option.bind_eq_some_iff.mp hrequest
    obtain ⟨symbol, hsymbol, hrequest⟩ := Option.bind_eq_some_iff.mp hrequest
    obtain ⟨side, hside, hrequest⟩ := Option.bind_eq_some_iff.mp hrequest
    obtain ⟨quantity, hquantity, hrequest⟩ := Option.bind_eq_some_iff.mp hrequest
    obtain ⟨ordType, htype, hrequest⟩ := Option.bind_eq_some_iff.mp hrequest
    obtain ⟨price, hprice, hrequest⟩ := Option.bind_eq_some_iff.mp hrequest
    obtain ⟨transactTime, htime, hrequest⟩ := Option.bind_eq_some_iff.mp hrequest
    obtain ⟨value, hvalue, hnumber⟩ := Option.bind_eq_some_iff.mp hquantity
    rw [← Option.some.inj hrequest]
    have hasks : AsksReplace utcOffset fixMessage tagMap :=
      { fields := hmap
        clOrdID := Option.isSome_of_eq_some hclOrdID
        origClOrdID := Option.isSome_of_eq_some horig
        symbol := Option.isSome_of_eq_some hsymbol
        side := Option.isSome_of_eq_some hside
        ordType := Option.isSome_of_eq_some htype
        price := Option.isSome_of_eq_some hprice
        transactTime := Option.isSome_of_eq_some htime }
    exact ⟨tagMap, value, hasks, hvalue, hnumber, horderID⟩
  · rintro ⟨tagMap, value, hasks, hvalue, hnumber, horderID⟩
    obtain ⟨clOrdID, hclOrdID⟩ := Option.isSome_iff_exists.mp hasks.clOrdID
    obtain ⟨origClOrdID, horig⟩ := Option.isSome_iff_exists.mp hasks.origClOrdID
    obtain ⟨symbol, hsymbol⟩ := Option.isSome_iff_exists.mp hasks.symbol
    obtain ⟨side, hside⟩ := Option.isSome_iff_exists.mp hasks.side
    obtain ⟨ordType, htype⟩ := Option.isSome_iff_exists.mp hasks.ordType
    obtain ⟨price, hprice⟩ := Option.isSome_iff_exists.mp hasks.price
    obtain ⟨transactTime, htime⟩ := Option.isSome_iff_exists.mp hasks.transactTime
    simp [BinaryToModifyOrderRequestConverter.convert, hasks.fields, hclOrdID, horig, horderID,
      hsymbol, hside, hvalue, hnumber, htype, hprice, htime]

/-! ## The texts -/

theorem stoull_isSome_iff : (stoull value).isSome ↔ Strtoul.IsReadable value := by
  rw [stoull, Option.isSome_map, Strtoul.stoul_isSome_iff]

/-- A number that has been read is what the text says if the text is digits. -/
theorem isNumber_iff (h : stoull value = some n) : IsNumber value n.toNat ↔ IsDigits value := by
  constructor
  · exact fun hnumber => ⟨hnumber.ne_nil, hnumber.isDigit⟩
  · rintro ⟨hne, hdigits⟩
    have hsign := Decimal.splitSign_digits hdigits hne []
    have htake := Decimal.takeWhile_digits hdigits [] (by simp)
    rw [List.append_nil] at hsign htake
    have hreadable : Strtoul.IsReadable value :=
      stoull_isSome_iff.mp (Option.isSome_of_eq_some h)
    rw [Strtoul.IsReadable, hsign, htake] at hreadable
    rw [stoull, Decimal.stoul_digits hdigits hne hreadable.2, Option.map_some,
      Option.some.injEq] at h
    rw [← h, UInt64.toNat_ofNat_of_lt' hreadable.2]
    exact ⟨hdigits, hne, rfl⟩

theorem orderID_isSome_iff :
    tagMap.orderID.isSome ↔ ∀ value ∈ tagMap.get .orderID, Strtoul.IsReadable value := by
  rw [TagMap.orderID]
  cases tagMap.get .orderID with
  | none => simp
  | some value => simpa using stoull_isSome_iff

/-- An id that has been read is what the field says if the field is digits. -/
theorem saysIfPresent_iff (hmap : splitToMap fixMessage soh = some tagMap)
    (h : tagMap.orderID = some id) : SaysIfPresent fixMessage .orderID id ↔
      ∀ value ∈ tagMap.get .orderID, IsDigits value := by
  have hnumber : ∀ value ∈ tagMap.get .orderID, stoull value = some id := by
    intro value hvalue
    rw [TagMap.orderID, Option.mem_def.mp hvalue] at h
    exact h
  constructor
  · exact fun htells value hvalue =>
      (isNumber_iff (hnumber value hvalue)).mp (htells tagMap value hmap hvalue)
  · intro hdigits tagMap' value hmap' hvalue
    obtain rfl : tagMap = tagMap' := Option.some.inj (hmap.symm.trans hmap')
    exact (isNumber_iff (hnumber value hvalue)).mpr (hdigits value hvalue)

theorem says_iff (hmap : splitToMap fixMessage soh = some tagMap)
    (hvalue : tagMap.get .orderQty = some value) (h : stoull value = some n) :
    Says fixMessage .orderQty n ↔ IsDigits value := by
  constructor
  · rintro ⟨tagMap', value', hmap', hvalue', hnumber⟩
    obtain rfl : tagMap = tagMap' := Option.some.inj (hmap.symm.trans hmap')
    obtain rfl : value = value' := Option.some.inj (hvalue.symm.trans hvalue')
    exact (isNumber_iff h).mp hnumber
  · exact fun hdigits => ⟨tagMap, value, hmap, hvalue, (isNumber_iff h).mpr hdigits⟩

/-- Where a converter finds all else it asks for and could read the numbers of the
message, they are digits. -/
structure AreDigits (utcOffset : ℤ) (fixMessage : Message) : Prop where
  newOrder : ∀ tagMap value, AsksNewOrder fixMessage tagMap →
    tagMap.get .orderQty = some value → Strtoul.IsReadable value → IsDigits value
  cancel : ∀ tagMap, AsksCancel utcOffset fixMessage tagMap →
    (∀ value ∈ tagMap.get .orderID, Strtoul.IsReadable value) →
      ∀ value ∈ tagMap.get .orderID, IsDigits value
  replace : ∀ tagMap value, AsksReplace utcOffset fixMessage tagMap →
    tagMap.get .orderQty = some value → Strtoul.IsReadable value →
      (∀ value ∈ tagMap.get .orderID, Strtoul.IsReadable value) →
        IsDigits value ∧ ∀ value ∈ tagMap.get .orderID, IsDigits value

namespace Sample

/-- A NewOrderSingle for so many. -/
def newOrderSingle (quantity : String) : Message :=
  OutboundMessageBuilder.buildMessage "C1".toList "BETA_EXCHANGE".toList 2 ['D']
    (Text.close soh [field 11 ['A'], field 55 "EURUSD".toList, field 54 ['1'],
      field 38 quantity.toList, field 40 ['2'], field 44 "1.5".toList]) 0

end Sample

end RequestNumbers

end BetaTrader
