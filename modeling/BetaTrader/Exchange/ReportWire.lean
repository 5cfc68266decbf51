import BetaTrader.Client.FixMessageParser
import BetaTrader.Exchange.BinaryConverters
import BetaTrader.Exchange.BuiltMessage

/-!
# Execution reports across the wire

What the exchange's converter writes, the client's parser reads back, whatever the
strings of the report are, as long as they have no separator in them.
-/

namespace BetaTrader

open Decimal OutboundMessageBuilder

/-! ## Messages of the converters -/

namespace BinaryConverter

/-- What the checksum of a message counts. -/
def checkedFields (beginString : Message) (header body : List (ℕ × Message)) :
    List (ℕ × Message) :=
  [(8, beginString), (9, natText ((ofFields header).length + (ofFields body).length))] ++
    (header ++ body)

theorem finalMessage_eq (beginString : Message) (header body : List (ℕ × Message)) :
    finalMessage beginString header body =
      ofFields (Wire.sealed (checkedFields beginString header body)) := rfl

end BinaryConverter

namespace FixMessageParser

variable {fields : List (ℕ × Message)}

/-- The parser counts the checksum as the converters do. -/
theorem checkChecksum_sealed (hne : fields ≠ []) :
    checkChecksum (ofFields (Wire.sealed fields)) = some () := by
  have htag : soh :: natText Tag.checkSum.number ++ ['='] = soh :: "10=".toList := rfl
  have hdigits : ∀ c ∈ pad 3 (natText (Wire.checksum (ofFields fields))), c.isDigit = true :=
    fun _ => isDigit_of_mem_pad
  obtain ⟨before, hbefore, hsplit⟩ := Wire.splitLast_trailer hne hdigits
  have hlt := Wire.checksum_lt (ofFields fields)
  rw [checkChecksum, htag]
  simp only [Wire.sealed, Tag.number, hsplit, Wire.stoi_pad hlt, Option.bind_eq_bind,
    Option.bind_some, ← hbefore, if_true]

theorem stoull_natText (n : UInt64) : stoull (natText n.toNat) = some n := by
  rw [stoull, stoul_natText n.toNat_lt, Option.map_some, UInt64.ofNat_toNat]

end FixMessageParser

namespace ExecutionReportToBinaryConverter

theorem charToOrderStatus_orderStatusToChar (status : OrderStatus) :
    FixMessageParser.charToOrderStatus (orderStatusToChar status) = some status := by
  cases status <;> decide

theorem charToOrderSide_orderSideToChar (side : OrderSide) :
    FixUtils.charToOrderSide (orderSideToChar side) = some side := by
  cases side <;> decide

/-- The strings of the report have no separator. -/
structure Clean (report : ExecutionReport Double) : Prop where
  clientOrderId : soh ∉ report.clientOrderId.toList
  executionId : soh ∉ report.executionId.toList
  text : soh ∉ report.text.toList

variable {report : ExecutionReport Double} {msgSeqNum : UInt32} {now : Timestamp}

/-- All fields of the message. -/
def fields (report : ExecutionReport Double) (msgSeqNum : UInt32) (now : Timestamp) :
    List (ℕ × Message) :=
  Wire.sealed (BinaryConverter.checkedFields "FIX.4.4".toList (header report msgSeqNum now)
    (body report))

theorem convert_eq : convert report msgSeqNum now = ofFields (fields report msgSeqNum now) := rfl

theorem tags_fields : (fields report msgSeqNum now).map Prod.fst =
    [8, 9, 35, 49, 56, 34, 52, 37, 11, 17, 39] ++ (if report.text = "" then [] else [58]) ++
      [55, 54, 38, 14, 151, 31, 32, 60, 10] := by
  by_cases htext : report.text = "" <;>
    simp [fields, Wire.sealed, BinaryConverter.checkedFields, header, body, htext, Tag.number]

theorem nodup_tags : ((fields report msgSeqNum now).map Prod.fst).Nodup := by
  rw [tags_fields]
  split_ifs <;> decide

theorem tags_lt : ∀ f ∈ fields report msgSeqNum now, f.1 < 2 ^ 31 := by
  have hall : ∀ tag ∈ (fields report msgSeqNum now).map Prod.fst, tag < 2 ^ 31 := by
    rw [tags_fields]
    split_ifs <;> decide
  exact fun f hf => hall f.1 (List.mem_map_of_mem hf)

theorem soh_notMem_fields (h : Clean report) :
    ∀ f ∈ fields report msgSeqNum now, soh ∉ f.2 := by
  have hnat (n : ℕ) : soh ∉ natText n := (Plain.natText n).soh_notMem
  have hname : soh ∉ report.symbol.name :=
    (Plain.symbol (Instrument.fromString_name report.symbol)).soh_notMem
  have hprice : soh ∉ fixedText 4 report.lastPrice := (Plain.fixedText 4 _).soh_notMem
  have htime (ts : Timestamp) : soh ∉ timestampToString ts :=
    (Plain.generateTimestamp ts).soh_notMem
  have hsum (n : ℕ) : soh ∉ pad 3 (natText n) := (Plain.natText n).pad.soh_notMem
  have hstatus : soh ≠ orderStatusToChar report.status := by
    cases report.status <;> decide
  have hside : soh ≠ orderSideToChar report.side := by
    cases report.side <;> decide
  have hbegin : soh ∉ "FIX.4.4".toList := by decide
  have htype : soh ≠ '8' := by decide
  have htext := h.text
  simp only [fields, Wire.sealed, BinaryConverter.checkedFields, header, body]
  split_ifs <;>
    simp [hnat, hname, hprice, htime, hsum, hstatus, hside, h.clientOrderId, h.executionId,
      htype, htext] <;> simpa using hbegin

variable (msgSeqNum now) in
/-- The map that the parser makes of the message. -/
theorem splitToMap_convert (h : Clean report) :
    FixUtils.splitToMap (convert report msgSeqNum now) soh =
      some (Wire.mapOf (fields report msgSeqNum now)) :=
  Wire.splitToMap_ofFields tags_lt (soh_notMem_fields h)

theorem getStr_of_mem {tag : ℕ} {value : Message}
    (h : (tag, value) ∈ header report msgSeqNum now ++ body report) :
    FixMessageParser.getStr (Wire.mapOf (fields report msgSeqNum now)) tag = value := by
  have hmem : (tag, value) ∈ fields report msgSeqNum now :=
    List.mem_append_left _ (List.mem_append_right _ h)
  rw [FixMessageParser.getStr, Wire.mapOf_of_mem nodup_tags hmem, Option.getD_some]

theorem getStr_text : FixMessageParser.getStr (Wire.mapOf (fields report msgSeqNum now))
    Tag.text.number = report.text.toList := by
  by_cases htext : report.text = ""
  · have hnot : Tag.text.number ∉ (fields report msgSeqNum now).map Prod.fst := by
      rw [tags_fields, if_pos htext]
      decide
    rw [FixMessageParser.getStr, Wire.mapOf_of_notMem hnot, htext]
    rfl
  · exact getStr_of_mem (by simp [body, htext])

/-- What comes back: the ids of the two sides are not read, and the time is the one
that local time makes of it. -/
def received (report : ExecutionReport Double) (msgSeqNum : UInt32) (utcOffset : ℤ) :
    ExecutionReport Double :=
  { report with
    senderCompId := 0
    targetCompId := 0
    messageSequenceNumber := UInt64.ofNat msgSeqNum.toNat
    transactionTime := report.transactionTime / 1000000 * 1000000 - utcOffset * 1000000000 }

/-- The last price has four decimals, and is a number that a `double` holds. -/
def PricedInTicks (price : Double) : Prop :=
  ∃ k : ℤ, price = .finite (k / 10 ^ 4) ∧ |(k : ℚ)| / 10 ^ 4 < 2 ^ 1024 - 2 ^ 970

theorem stod_fixedText_of_ticks {price : Double} (h : PricedInTicks price) :
    Double.stod (fixedText 4 price) = some price := by
  obtain ⟨k, rfl, hk⟩ := h
  refine stod_fixedText_int (by decide) ?_
  rw [← Int.cast_abs, Int.abs_eq_natAbs, Int.cast_natCast] at hk ⊢
  exact inRange_decimal hk

/-- The map has all that the parser reads of a report. -/
structure Carries (map : FixUtils.TagMap) (report : ExecutionReport Double)
    (msgSeqNum : UInt32) : Prop where
  msgSeqNum : FixMessageParser.getStr map Tag.msgSeqNum.number = natText msgSeqNum.toNat
  orderID : FixMessageParser.getStr map Tag.orderID.number = natText report.exchangeOrderId.toNat
  clOrdID : FixMessageParser.getStr map Tag.clOrdID.number = report.clientOrderId.toList
  execID : FixMessageParser.getStr map Tag.execID = report.executionId.toList
  ordStatus : FixMessageParser.getStr map Tag.ordStatus = [orderStatusToChar report.status]
  text : FixMessageParser.getStr map Tag.text.number = report.text.toList
  symbol : FixMessageParser.getStr map Tag.symbol.number = report.symbol.name
  side : FixMessageParser.getStr map Tag.side.number = [orderSideToChar report.side]
  orderQty : FixMessageParser.getStr map Tag.orderQty.number = natText report.orderQuantity.toNat
  cumQty : FixMessageParser.getStr map Tag.cumQty = natText report.cumulativeQuantity.toNat
  leavesQty : FixMessageParser.getStr map Tag.leavesQty = natText report.leavesQuantity.toNat
  lastPx : FixMessageParser.getStr map Tag.lastPx = fixedText 4 report.lastPrice
  lastQty : FixMessageParser.getStr map Tag.lastQty = natText report.lastQuantity.toNat
  transactTime : FixMessageParser.getStr map Tag.transactTime.number =
    timestampToString report.transactionTime

theorem carries_fields :
    Carries (Wire.mapOf (fields report msgSeqNum now)) report msgSeqNum where
  msgSeqNum := getStr_of_mem (by simp [header])
  orderID := getStr_of_mem (by simp [body])
  clOrdID := getStr_of_mem (by simp [body])
  execID := getStr_of_mem (by simp [body])
  ordStatus := getStr_of_mem (by simp [body])
  text := getStr_text
  symbol := getStr_of_mem (by simp [body])
  side := getStr_of_mem (by simp [body])
  orderQty := getStr_of_mem (by simp [body])
  cumQty := getStr_of_mem (by simp [body])
  leavesQty := getStr_of_mem (by simp [body])
  lastPx := getStr_of_mem (by simp [body])
  lastQty := getStr_of_mem (by simp [body])
  transactTime := getStr_of_mem (by simp [body])

theorem stoull_msgSeqNum (msgSeqNum : UInt32) : FixMessageParser.stoull (natText msgSeqNum.toNat) =
    some (UInt64.ofNat msgSeqNum.toNat) := by
  have hlt : msgSeqNum.toNat < 2 ^ 64 := msgSeqNum.toNat_lt.trans (by decide)
  rw [FixMessageParser.stoull, stoul_natText hlt, Option.map_some]

theorem fixedText_ne_nil_of_ticks {price : Double} (h : PricedInTicks price) :
    fixedText 4 price ≠ [] := by
  obtain ⟨k, rfl, _⟩ := h
  rw [fixedText]
  split_ifs <;> simp

theorem parseExecutionReport_of_carries {map : FixUtils.TagMap} {message : Message}
    (hmap : FixUtils.splitToMap message soh = some map) (h : Carries map report msgSeqNum)
    (hprice : PricedInTicks report.lastPrice) (hfirst : (0 : ℤ) ≤ report.transactionTime)
    (hlast : report.transactionTime < FixUtils.endOfYears * 1000000000) (utcOffset : ℤ) :
    FixMessageParser.parseExecutionReport utcOffset message =
      some (received report msgSeqNum utcOffset) := by
  have htime := FixUtils.parseTimestamp_generateTimestamp hfirst hlast utcOffset
  rw [FixMessageParser.parseExecutionReport, hmap, Option.bind_eq_bind, Option.bind_some,
    h.msgSeqNum, stoull_msgSeqNum, h.orderID, FixMessageParser.stoull_natText, h.ordStatus,
    FixMessageParser.first, List.headD_cons, charToOrderStatus_orderStatusToChar, h.symbol,
    Instrument.fromString_name, h.side, FixMessageParser.first, List.headD_cons,
    charToOrderSide_orderSideToChar, h.orderQty, FixMessageParser.stoull_natText, h.cumQty,
    FixMessageParser.stoull_natText, h.leavesQty, FixMessageParser.stoull_natText, h.lastPx,
    FixMessageParser.orZero_of_ne_nil (fixedText_ne_nil_of_ticks hprice),
    stod_fixedText_of_ticks hprice, h.lastQty, FixMessageParser.orZero_of_ne_nil natText_ne_nil,
    FixMessageParser.stoull_natText, h.transactTime, timestampToString,
    htime, h.clOrdID, h.execID, h.text]
  simp only [String.ofList_toList]
  rfl

/-- The report comes back with the number of the message. -/
theorem parse_convert (hclean : Clean report) (hprice : PricedInTicks report.lastPrice)
    (hfirst : (0 : ℤ) ≤ report.transactionTime)
    (hlast : report.transactionTime < FixUtils.endOfYears * 1000000000) (utcOffset : ℤ)
    (msgSeqNum : UInt32) (now : Timestamp) :
    FixMessageParser.parse utcOffset (convert report msgSeqNum now) =
      .executionReport (received report msgSeqNum utcOffset) := by
  have hmap := splitToMap_convert msgSeqNum now hclean
  have hchecksum : FixMessageParser.checkChecksum (convert report msgSeqNum now) = some () :=
    FixMessageParser.checkChecksum_sealed (List.cons_ne_nil _ _)
  have hreport := parseExecutionReport_of_carries hmap carries_fields hprice hfirst hlast utcOffset
  have htype : Wire.mapOf (fields report msgSeqNum now) Tag.msgType.number = some ['8'] := by
    refine Wire.mapOf_of_mem nodup_tags ?_
    simp [fields, Wire.sealed, BinaryConverter.checkedFields, header]
  rw [FixMessageParser.parse]
  simp [hchecksum, hmap, htype, hreport]

/-- A report whose strings look like fields. -/
def Sample.partialFill : ExecutionReport Double where
  senderCompId := 1
  targetCompId := 2
  messageSequenceNumber := 0
  exchangeOrderId := 7
  clientOrderId := "A=B10=000"
  executionId := "8=FIX.4.4"
  status := .partiallyFilled
  text := ""
  symbol := .usdjpy
  side := .sell
  orderQuantity := 10
  cumulativeQuantity := 4
  leavesQuantity := 6
  lastPrice := .finite ((-12345 : ℤ) / 10 ^ 4)
  lastQuantity := 4
  transactionTime := 1700000000123456789

theorem parse_convert_sample :
    FixMessageParser.parse 3600 (convert Sample.partialFill 9 0) =
      .executionReport (received Sample.partialFill 9 3600) :=
  parse_convert ⟨by decide, by decide, by decide⟩ ⟨-12345, rfl, by decide +kernel⟩
    (by decide) (by decide) 3600 9 0

end ExecutionReportToBinaryConverter

end BetaTrader
