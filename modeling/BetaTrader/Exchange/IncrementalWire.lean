import BetaTrader.Exchange.ServerStream
import BetaTrader.Exchange.SnapshotWire

/-!
# Incremental refreshes across the wire

The group of a refresh begins with the action of each entry, and every entry has the
symbol of the refresh.  As in a snapshot the request id may look like any part of the
message.
-/

namespace BetaTrader

open Decimal OutboundMessageBuilder FixMessageParser

/-- The parser finds the fields of every message that can be sent. -/
theorem ServerMessage.splitToMap_text {m : ServerMessage} (h : m.Sendable) :
    FixUtils.splitToMap m.text soh = some (Wire.mapOf m.fields) := by
  have hpayload : ∀ tag ∈ payloadTags, tag < 2 ^ 31 := by decide
  rw [text_eq]
  refine Wire.splitToMap_ofFields (fun f hf => ?_) (soh_notMem_fields h)
  rcases List.mem_append.mp hf with hf | hf
  · have hhead : f.1 ∈ [8, 9] := List.mem_map_of_mem hf
    simp only [List.mem_cons, List.not_mem_nil, or_false] at hhead
    omega
  · rcases List.mem_append.mp hf with hf | hf
    · exact hpayload f.1 (known_payload h f hf).tag
    · simp [List.mem_singleton.mp hf]

namespace MarketDataIncrementalRefreshToBinaryConverter

/-- What the parser makes of an entry: the times and the positions are not sent. -/
def received (entry : MarketDataIncrementalEntry Double) : ParsedIncrementalEntry where
  updateAction := entry.updateAction.toChar
  entryType := entry.entryType
  price := entry.price
  size := entry.size
  entryPosition := 0

/-- The symbol is read from the entries. -/
def receivedRefresh (refresh : MarketDataIncrementalRefresh Double) : ParsedIncrementalRefresh where
  mdReqID := refresh.mdReqID
  symbol := if refresh.entries = [] then none else some refresh.symbol
  entries := refresh.entries.map received

/-! ## One entry -/

section Entry

variable {symbol : Instrument} {entry : MarketDataIncrementalEntry Double} {now : Timestamp}
  {digits : Message}

/-- The fields of an entry behind its action. -/
def blockFields (symbol : Instrument) (entry : MarketDataIncrementalEntry Double)
    (now : Timestamp) : List (ℕ × Message) :=
  [(Tag.mdEntryType, [entry.entryType.toChar]), (Tag.symbol.number, symbol.name),
    (Tag.mdEntryPx, fixedText 4 entry.price), (Tag.mdEntrySize, natText entry.size.toNat),
    (Tag.mdEntryTime, timeOfDay now)]

theorem entryFields_eq : entryFields symbol entry now =
    (Tag.mdUpdateAction, [entry.updateAction.toChar]) :: blockFields symbol entry now := rfl

theorem blockFields_values {f : ℕ × Message} (hf : f ∈ blockFields symbol entry now) :
    Wire.Inert f.2 := by
  simp only [blockFields, List.mem_cons, List.not_mem_nil, or_false] at hf
  rcases hf with rfl | rfl | rfl | rfl | rfl
  · exact ServerMessage.inert_entryType _
  · exact .name _
  · exact .fixedText 4 _
  · exact .natText _
  · exact ServerMessage.inert_timeOfDay _

theorem map_fst_blockFields :
    (blockFields symbol entry now).map Prod.fst = [269, 55, 270, 271, 273] := rfl

theorem block_spec {closing : List (ℕ × Message)}
    (hclosing : MarketDataSnapshotFullRefreshToBinaryConverter.Closing closing) {f : ℕ × Message}
    (hf : f ∈ blockFields symbol entry now ++ closing) :
    Wire.Inert f.2 ∧ f.1 ∈ [269, 55, 270, 271, 273, 10] := by
  rcases List.mem_append.mp hf with hf | hf
  · have htag : f.1 ∈ [269, 55, 270, 271, 273] := List.mem_map_of_mem hf
    exact ⟨blockFields_values hf, List.mem_append_left [10] htag⟩
  · exact ⟨hclosing.values hf, by simp [hclosing.tags hf]⟩

theorem not_action_isInfix {closing : List (ℕ × Message)}
    (hclosing : MarketDataSnapshotFullRefreshToBinaryConverter.Closing closing) {f : ℕ × Message}
    (hf : f ∈ blockFields symbol entry now ++ closing) :
    ¬"279=".toList <:+: FixUtils.field f.1 f.2 := by
  obtain ⟨hvalue, htag⟩ := block_spec hclosing hf
  refine Wire.not_isInfix_field (p := "279".toList) hvalue.equals (by decide) ?_
  have hall : ∀ tag ∈ [269, 55, 270, 271, 273, 10], ¬"279".toList <:+ natText tag := by decide
  exact hall f.1 htag

theorem nodup_block {closing : List (ℕ × Message)}
    (hclosing : MarketDataSnapshotFullRefreshToBinaryConverter.Closing closing) :
    ((blockFields symbol entry now ++ closing).map Prod.fst).Nodup := by
  rcases hclosing with rfl | ⟨digits, _, rfl⟩ <;> simp [map_fst_blockFields]

theorem splitToMap_block {closing : List (ℕ × Message)}
    (hclosing : MarketDataSnapshotFullRefreshToBinaryConverter.Closing closing) :
    FixUtils.splitToMap (ofFields (blockFields symbol entry now ++ closing)) soh =
      some (Wire.mapOf (blockFields symbol entry now ++ closing)) := by
  have hall : ∀ tag ∈ [269, 55, 270, 271, 273, 10], tag < 2 ^ 31 := by decide
  exact Wire.splitToMap_ofFields (fun f hf => hall f.1 (block_spec hclosing hf).2)
    fun f hf => (block_spec hclosing hf).1.soh

theorem mapOf_block {closing : List (ℕ × Message)}
    (hclosing : MarketDataSnapshotFullRefreshToBinaryConverter.Closing closing) {tag : ℕ}
    {value : Message} (h : (tag, value) ∈ blockFields symbol entry now) :
    Wire.mapOf (blockFields symbol entry now ++ closing) tag = some value :=
  Wire.mapOf_of_mem (nodup_block hclosing) (List.mem_append_left _ h)

theorem blockValues_block {closing : List (ℕ × Message)}
    (hclosing : MarketDataSnapshotFullRefreshToBinaryConverter.Closing closing)
    (hprice : ExecutionReportToBinaryConverter.PricedInTicks entry.price) :
    blockValues (Wire.mapOf (blockFields symbol entry now ++ closing)) =
      some (entry.price, entry.size, 0) := by
  have hposition : Tag.mdEntryPositionNo ∉
      (blockFields symbol entry now ++ closing).map Prod.fst := by
    rcases hclosing with rfl | ⟨digits, _, rfl⟩ <;> simp [map_fst_blockFields]
  rw [blockValues, mapOf_block hclosing (show (Tag.mdEntryPx, fixedText 4 entry.price) ∈
      blockFields symbol entry now by simp [blockFields]),
    mapOf_block hclosing (show (Tag.mdEntrySize, natText entry.size.toNat) ∈
      blockFields symbol entry now by simp [blockFields]), Wire.mapOf_of_notMem hposition]
  simp only [Option.elim_some, Option.elim_none,
    ExecutionReportToBinaryConverter.stod_fixedText_of_ticks hprice, stoull_natText,
    Option.bind_eq_bind, Option.bind_some]
  rfl

/-- The next block is that of the entry, wherever the text before it has no action. -/
theorem nextBlock_entry {skipped closing : List (ℕ × Message)} {rest : Message}
    (hskipped : ∀ f ∈ skipped, ¬"279=".toList <:+: FixUtils.field f.1 f.2)
    (hclosing : MarketDataSnapshotFullRefreshToBinaryConverter.Closing closing)
    (hrest : Text.cutFirst "279=".toList rest = ([], rest)) :
    nextBlock "279=".toList
        (ofFields skipped ++ (ofFields (entryFields symbol entry now ++ closing) ++ rest)) =
      some (entry.updateAction.toChar, ofFields (blockFields symbol entry now ++ closing),
        rest) := by
  have htag : natText Tag.mdUpdateAction = "279".toList := rfl
  have hentry : ofFields (entryFields symbol entry now ++ closing) ++ rest = "279=".toList ++
      entry.updateAction.toChar :: soh ::
        (ofFields (blockFields symbol entry now ++ closing) ++ rest) := by
    rw [entryFields_eq, List.cons_append, ofFields_cons, FixUtils.field, htag]
    simp
  rw [nextBlock, Wire.afterFirst_ofFields (by decide) hskipped, hentry,
    Text.afterFirst_append_self (by decide)]
  dsimp only
  rw [if_neg (by simp), List.drop_succ_cons, List.drop_succ_cons, List.drop_zero,
    Wire.cutFirst_ofFields (by decide) fun f hf => not_action_isInfix hclosing hf, hrest,
    List.append_nil]
  rfl

end Entry

/-! ## The group -/

section Group

variable {symbol : Instrument} {rows : List (MarketDataIncrementalEntry Double × Timestamp)}
  {digits : Message}

/-- The entries with the times at which they are written. -/
def rowFields (symbol : Instrument)
    (rows : List (MarketDataIncrementalEntry Double × Timestamp)) : List (ℕ × Message) :=
  rows.flatMap fun row => entryFields symbol row.1 row.2

theorem rowFields_cons (row : MarketDataIncrementalEntry Double × Timestamp) :
    rowFields symbol (row :: rows) = entryFields symbol row.1 row.2 ++ rowFields symbol rows :=
  List.flatMap_cons

/-- The next entry begins where the block before it is cut. -/
theorem cutFirst_rows (symbol : Instrument)
    (rows : List (MarketDataIncrementalEntry Double × Timestamp))
    (hdigits : ∀ c ∈ digits, c.isDigit = true) :
    ∃ closing rest, MarketDataSnapshotFullRefreshToBinaryConverter.Closing closing ∧
      Text.cutFirst "279=".toList rest = ([], rest) ∧
      ofFields closing ++ rest = ofFields (rowFields symbol rows ++ [(10, digits)]) ∧
      (rows = [] ∨ closing = []) := by
  cases rows with
  | nil => exact ⟨[(10, digits)], [], Or.inr ⟨digits, hdigits, rfl⟩, rfl, by simp [rowFields],
      Or.inl rfl⟩
  | cons row rows =>
      refine ⟨[], _, Or.inl rfl, ?_, List.nil_append _, Or.inr rfl⟩
      have htag : natText Tag.mdUpdateAction = "279".toList := rfl
      have hbegin : ofFields (rowFields symbol (row :: rows) ++ [(10, digits)]) =
          "279=".toList ++ row.1.updateAction.toChar :: soh ::
            ofFields (blockFields symbol row.1 row.2 ++
              (rowFields symbol rows ++ [(10, digits)])) := by
        rw [rowFields_cons, List.append_assoc, entryFields_eq, List.cons_append, ofFields_cons,
          FixUtils.field, htag]
        simp
      rw [hbegin, Text.cutFirst_append_self (by decide)]

/-- The loop of the parser reads the entries in their order, and the symbol with each. -/
theorem incrementalEntries_ofFields
    (hrows : ∀ row ∈ rows, ExecutionReportToBinaryConverter.PricedInTicks row.1.price)
    (hdigits : ∀ c ∈ digits, c.isDigit = true) {skipped : List (ℕ × Message)}
    (hskipped : ∀ f ∈ skipped, ¬"279=".toList <:+: FixUtils.field f.1 f.2)
    (known : Option Instrument) :
    incrementalEntries rows.length known
        (ofFields skipped ++ ofFields (rowFields symbol rows ++ [(10, digits)])) =
      some (if rows = [] then known else some symbol, rows.map fun row => received row.1) := by
  induction rows generalizing skipped known with
  | nil => rfl
  | cons row rows ih =>
      obtain ⟨closing, rest, hclosing, hcut, hrest, hend⟩ :=
        cutFirst_rows symbol rows hdigits
      have hsplit : ofFields (rowFields symbol (row :: rows) ++ [(10, digits)]) =
          ofFields (entryFields symbol row.1 row.2 ++ closing) ++ rest := by
        rw [rowFields_cons, List.append_assoc, ofFields_append, ← hrest, ofFields_append,
          List.append_assoc]
      have hlater : incrementalEntries rows.length (some symbol) rest =
          some (some symbol, rows.map fun row => received row.1) := by
        rcases hend with rfl | rfl
        · rfl
        · have hstart : ∀ f ∈ ([] : List (ℕ × Message)),
              ¬"279=".toList <:+: FixUtils.field f.1 f.2 := by simp
          have hread := ih (fun r hr => hrows r (List.mem_cons_of_mem row hr)) hstart (some symbol)
          rwa [← hrest, ite_self] at hread
      have htype : Wire.mapOf (blockFields symbol row.1 row.2 ++ closing) Tag.mdEntryType =
          some [row.1.entryType.toChar] := mapOf_block hclosing (by simp [blockFields])
      have hsymbol : Wire.mapOf (blockFields symbol row.1 row.2 ++ closing) Tag.symbol.number =
          some symbol.name := mapOf_block hclosing (by simp [blockFields])
      rw [hsplit, List.length_cons, incrementalEntries, nextBlock_entry hskipped hclosing hcut]
      simp only [Option.bind_eq_bind, Option.bind_some, splitToMap_block hclosing, hsymbol,
        htype, Option.elim_some, Instrument.fromString_name, Option.map_some,
        blockValues_block hclosing (hrows row List.mem_cons_self), hlater]
      rw [if_neg (List.cons_ne_nil _ _), FixUtils.front, List.headD_cons,
        MarketDataSnapshotFullRefreshToBinaryConverter.ofChar_toChar]
      rfl

end Group

/-! ## The message -/

section Message

variable {refresh : MarketDataIncrementalRefresh Double} {msgSeqNum : UInt32} {clock : Clock}

/-- The entries with the readings of the clock. -/
def rows (refresh : MarketDataIncrementalRefresh Double) (clock : Clock) :
    List (MarketDataIncrementalEntry Double × Timestamp) :=
  refresh.entries.zipIdx.map fun e => (e.1, clock e.2)

variable (refresh clock) in
theorem map_fst_rows : (rows refresh clock).map Prod.fst = refresh.entries := by
  rw [rows, List.map_map]
  exact List.zipIdx_map_fst 0 refresh.entries

variable (refresh clock) in
theorem length_rows : (rows refresh clock).length = refresh.entries.length := by
  rw [rows, List.length_map, List.length_zipIdx]

/-- The fields before the request id. -/
def headFields (refresh : MarketDataIncrementalRefresh Double) (msgSeqNum : UInt32)
    (clock : Clock) : List (ℕ × Message) :=
  (ServerMessage.refresh refresh msgSeqNum clock).head ++
    BinaryConverter.marketDataHeader 'X' (refresh.targetSessionID.getD 0) msgSeqNum
      (clock refresh.entries.length)

def requestFields (refresh : MarketDataIncrementalRefresh Double) : List (ℕ × Message) :=
  if refresh.mdReqID = "" then [] else [(Tag.mdReqID.number, refresh.mdReqID.toList)]

/-- The group and the checksum. -/
def groupFields (refresh : MarketDataIncrementalRefresh Double) (msgSeqNum : UInt32)
    (clock : Clock) : List (ℕ × Message) :=
  rowFields refresh.symbol (rows refresh clock) ++
    [(10, (ServerMessage.refresh refresh msgSeqNum clock).sum)]

theorem fields_eq : (ServerMessage.refresh refresh msgSeqNum clock).fields =
    headFields refresh msgSeqNum clock ++ (requestFields refresh ++
      ((Tag.noMDEntries, natText refresh.entries.length) ::
        groupFields refresh msgSeqNum clock)) := by
  have hrows : rowFields refresh.symbol (rows refresh clock) =
      refresh.entries.zipIdx.flatMap fun e => entryFields refresh.symbol e.1 (clock e.2) := by
    rw [rowFields, rows, List.flatMap_map]
  rw [ServerMessage.fields, ServerMessage.payload, headFields, groupFields, hrows, body,
    requestFields]
  simp only [List.append_assoc, List.cons_append, List.nil_append]

theorem headFields_values {f : ℕ × Message} (hf : f ∈ headFields refresh msgSeqNum clock) :
    Wire.Inert f.2 := by
  rcases List.mem_append.mp hf with hf | hf
  · exact (ServerMessage.head_spec _ f hf).1
  · simp only [BinaryConverter.marketDataHeader, List.mem_cons, List.not_mem_nil, or_false] at hf
    rcases hf with rfl | rfl | rfl | rfl | rfl
    · exact ⟨by decide, by decide⟩
    · exact ⟨by decide, by decide⟩
    · exact .natText _
    · exact .natText _
    · exact .generateTimestamp _

theorem headFields_tag {f : ℕ × Message} (hf : f ∈ headFields refresh msgSeqNum clock) :
    f.1 ∈ [8, 9, 35, 49, 56, 34, 52] := List.mem_map_of_mem hf

theorem groupFields_tag {f : ℕ × Message} (hf : f ∈ groupFields refresh msgSeqNum clock) :
    f.1 ∈ [279, 269, 55, 270, 271, 273, 10] := by
  rcases List.mem_append.mp hf with hf | hf
  · obtain ⟨row, _, hf⟩ := List.mem_flatMap.mp hf
    have htag : f.1 ∈ [279, 269, 55, 270, 271, 273] := List.mem_map_of_mem hf
    exact List.mem_append_left [10] htag
  · simp [List.mem_singleton.mp hf]

variable (refresh) in
theorem requestFields_cases : requestFields refresh = [] ∨
    requestFields refresh = [(262, refresh.mdReqID.toList)] := by
  rw [requestFields]
  split_ifs
  · exact Or.inl rfl
  · exact Or.inr rfl

theorem tag_notMem_requestFields {tag : ℕ} (h : tag ≠ 262) :
    tag ∉ (requestFields refresh).map Prod.fst := by
  rcases requestFields_cases refresh with hempty | hone
  · simp [hempty]
  · simp [hone, h]

theorem tag_notMem_groupFields {tag : ℕ} (h : tag ∉ [279, 269, 55, 270, 271, 273, 10]) :
    tag ∉ (groupFields refresh msgSeqNum clock).map Prod.fst := by
  intro hmem
  obtain ⟨f, hf, rfl⟩ := List.mem_map.mp hmem
  exact h (groupFields_tag hf)

/-- What the parser reads from the map of the whole message. -/
structure Carries (map : FixUtils.TagMap) (refresh : MarketDataIncrementalRefresh Double) :
    Prop where
  msgType : map Tag.msgType.number = some ['X']
  mdReqID : getStr map Tag.mdReqID.number = refresh.mdReqID.toList
  noMDEntries : getStr map Tag.noMDEntries = natText refresh.entries.length

variable (refresh msgSeqNum clock) in
theorem carries_fields :
    Carries (Wire.mapOf (ServerMessage.refresh refresh msgSeqNum clock).fields) refresh := by
  have hlate {tag : ℕ} (hrequest : tag ≠ 262) (hcount : tag ≠ 268)
      (hgroup : tag ∉ [279, 269, 55, 270, 271, 273, 10]) :
      tag ∉ (requestFields refresh ++ (Tag.noMDEntries, natText refresh.entries.length) ::
        groupFields refresh msgSeqNum clock).map Prod.fst := by
    rw [List.map_append, List.map_cons, List.mem_append, List.mem_cons, not_or, not_or]
    exact ⟨tag_notMem_requestFields hrequest, hcount, tag_notMem_groupFields hgroup⟩
  refine ⟨?_, ?_, ?_⟩
  · have hsplit : headFields refresh msgSeqNum clock =
        (ServerMessage.refresh refresh msgSeqNum clock).head ++
          (Tag.msgType.number, ['X']) :: (BinaryConverter.marketDataHeader 'X'
            (refresh.targetSessionID.getD 0) msgSeqNum (clock refresh.entries.length)).tail := rfl
    rw [fields_eq, hsplit, List.append_assoc, List.cons_append]
    refine Wire.mapOf_append_cons _ ?_
    rw [List.map_append, List.mem_append, not_or]
    exact ⟨by simp [BinaryConverter.marketDataHeader, Tag.number],
      hlate (by decide) (by decide) (by decide)⟩
  · rw [getStr, fields_eq]
    by_cases hempty : refresh.mdReqID = ""
    · have hnot : Tag.mdReqID.number ∉ (headFields refresh msgSeqNum clock ++
          (requestFields refresh ++ (Tag.noMDEntries, natText refresh.entries.length) ::
            groupFields refresh msgSeqNum clock)).map Prod.fst := by
        rw [requestFields, if_pos hempty, List.nil_append, List.map_append, List.map_cons,
          List.mem_append, List.mem_cons, not_or, not_or]
        refine ⟨fun h => ?_, by simp [Tag.number], tag_notMem_groupFields (by decide)⟩
        obtain ⟨f, hf, htag⟩ := List.mem_map.mp h
        have hhead := headFields_tag hf
        rw [htag] at hhead
        exact absurd hhead (by decide)
      rw [Wire.mapOf_of_notMem hnot, hempty]
      rfl
    · rw [requestFields, if_neg hempty, List.singleton_append, Wire.mapOf_append_cons,
        Option.getD_some]
      rw [List.map_cons, List.mem_cons, not_or]
      exact ⟨by simp [Tag.number], tag_notMem_groupFields (by decide)⟩
  · rw [getStr, fields_eq, ← List.append_assoc,
      Wire.mapOf_append_cons _ (tag_notMem_groupFields (by decide)), Option.getD_some]

variable (msgSeqNum clock) in
/-- The parser begins at the count, or at the end of a request id that looks like it. -/
theorem exists_afterFirst (hrequest : soh ∉ refresh.mdReqID.toList) :
    ∃ skipped : List (ℕ × Message),
      (∀ f ∈ skipped, ¬"279=".toList <:+: FixUtils.field f.1 f.2) ∧
      Text.afterFirst ("268=".toList ++ natText refresh.entries.length ++ [soh])
          (ServerMessage.refresh refresh msgSeqNum clock).text =
        some (ofFields skipped ++ ofFields (groupFields refresh msgSeqNum clock)) := by
  have hmark : soh ∉ "268=".toList ++ natText refresh.entries.length := by
    rw [List.mem_append, not_or]
    exact ⟨by decide, (Plain.natText _).soh_notMem⟩
  have hnumber : FixUtils.field 268 (natText refresh.entries.length) =
      "268=".toList ++ natText refresh.entries.length := rfl
  have hhead : ∀ f ∈ headFields refresh msgSeqNum clock,
      ¬("268=".toList ++ natText refresh.entries.length) <:+ FixUtils.field f.1 f.2 := by
    intro f hf hsuffix
    have hall : ∀ tag ∈ [8, 9, 35, 49, 56, 34, 52], ¬"268".toList <:+ natText tag := by decide
    refine Wire.not_isInfix_field (headFields_values hf).equals (by decide)
      (hall f.1 (headFields_tag hf)) ?_
    exact (List.prefix_append "268=".toList _).isInfix.trans hsuffix.isInfix
  have hcount : Text.afterFirst ("268=".toList ++ natText refresh.entries.length ++ [soh])
      (ofFields ((Tag.noMDEntries, natText refresh.entries.length) ::
        groupFields refresh msgSeqNum clock)) =
        some (ofFields (groupFields refresh msgSeqNum clock)) := by
    rw [ofFields_cons, hnumber,
      Text.afterFirst_closed_of_isSuffix hmark hmark List.suffix_rfl]
  rw [ServerMessage.text_eq, fields_eq, ofFields_append, ofFields_append,
    Wire.afterFirst_closed_ofFields hmark (fun f hf => (headFields_values hf).soh) hhead]
  rcases requestFields_cases refresh with hempty | hone
  · refine ⟨[], by simp, ?_⟩
    rw [hempty, ofFields_nil, List.nil_append, hcount, List.nil_append]
  · have hfield : soh ∉ FixUtils.field 262 refresh.mdReqID.toList :=
      FixUtils.soh_notMem_field hrequest
    have hone' (t : Message) : ofFields (requestFields refresh) ++ t =
        FixUtils.field 262 refresh.mdReqID.toList ++ soh :: t := by
      simp [hone]
    rw [hone']
    by_cases hlike : ("268=".toList ++ natText refresh.entries.length) <:+
        FixUtils.field 262 refresh.mdReqID.toList
    · refine ⟨[(268, natText refresh.entries.length)], fun f hf => ?_, ?_⟩
      · rw [List.mem_singleton.mp hf]
        refine Wire.not_isInfix_field (p := "279".toList) (Wire.Inert.natText _).equals
          (by decide) ?_
        change ¬"279".toList <:+ natText 268
        decide
      · rw [Text.afterFirst_closed_of_isSuffix hmark hfield hlike]
        simp
    · refine ⟨[], by simp, ?_⟩
      rw [Text.afterFirst_closed_skip hmark hfield hlike, hcount, ofFields_nil, List.nil_append]

/-- A refresh comes back without the session, the times and the positions. -/
theorem parse_incremental (hrequest : soh ∉ refresh.mdReqID.toList)
    (hentries : ∀ entry ∈ refresh.entries,
      ExecutionReportToBinaryConverter.PricedInTicks entry.price)
    (hlength : refresh.entries.length < 2 ^ 31) (utcOffset : ℤ) (msgSeqNum : UInt32)
    (clock : Clock) :
    parse utcOffset (convert refresh msgSeqNum clock) = .incremental (receivedRefresh refresh) := by
  have hsendable : (ServerMessage.refresh refresh msgSeqNum clock).Sendable :=
    ⟨by simpa [ServerMessage.strings] using hrequest, by simp [ServerMessage.tags]⟩
  have hmap := ServerMessage.splitToMap_text hsendable
  have hcarries := carries_fields refresh msgSeqNum clock
  have hchecksum : checkChecksum (convert refresh msgSeqNum clock) = some () :=
    checkChecksum_sealed (List.cons_ne_nil _ _)
  obtain ⟨skipped, hskipped, hstart⟩ := exists_afterFirst msgSeqNum clock hrequest
  have hrows : ∀ row ∈ rows refresh clock,
      ExecutionReportToBinaryConverter.PricedInTicks row.1.price := fun row hrow =>
    hentries row.1 (map_fst_rows refresh clock ▸ List.mem_map_of_mem hrow)
  have hdigits : ∀ c ∈ (ServerMessage.refresh refresh msgSeqNum clock).sum, c.isDigit = true :=
    fun _ => isDigit_of_mem_pad
  have hgroup : incrementalEntries refresh.entries.length none
      (ofFields skipped ++ ofFields (groupFields refresh msgSeqNum clock)) =
        some ((receivedRefresh refresh).symbol, (receivedRefresh refresh).entries) := by
    have hnil : rows refresh clock = [] ↔ refresh.entries = [] := by
      rw [← List.length_eq_zero_iff, length_rows, List.length_eq_zero_iff]
    have hmapped : (rows refresh clock).map (fun row => received row.1) =
        refresh.entries.map received := by
      rw [← map_fst_rows refresh clock, List.map_map]
      rfl
    rw [← length_rows refresh clock, groupFields,
      incrementalEntries_ofFields hrows hdigits hskipped none, hmapped]
    simp only [hnil]
    rfl
  have hincremental : parseMarketDataIncremental (convert refresh msgSeqNum clock) =
      some (receivedRefresh refresh) := by
    rw [ServerMessage.text] at hmap hstart
    rw [parseMarketDataIncremental, hmap, Option.bind_eq_bind, Option.bind_some, hcarries.mdReqID,
      hcarries.noMDEntries]
    simp only [if_neg natText_ne_nil, stoi_natText hlength, hstart, Option.bind_some,
      Option.elim_some, Int.toNat_natCast, hgroup, String.ofList_toList, Option.bind_eq_bind]
    rfl
  rw [ServerMessage.text] at hmap
  rw [parse, hchecksum, hmap]
  simp [hcarries.msgType, hincremental]

/-- A request id that looks like the count of the entries and like an entry. -/
def Sample.likeFields : MarketDataIncrementalRefresh Double :=
  ⟨some 7, "279=1268=2", .eurusd, [⟨.new, .bid, .finite ((12345 : ℤ) / 10 ^ 4), 5, 9, 0⟩,
    ⟨.delete, .offer, .finite ((12346 : ℤ) / 10 ^ 4), 2, 9, 0⟩]⟩

theorem parse_incremental_sample :
    parse 0 (convert Sample.likeFields 1 fun _ => 0) =
      .incremental (receivedRefresh Sample.likeFields) := by
  have hprices : ∀ entry ∈ Sample.likeFields.entries,
      ExecutionReportToBinaryConverter.PricedInTicks entry.price := by
    simp only [Sample.likeFields, List.forall_mem_cons, List.not_mem_nil, IsEmpty.forall_iff,
      implies_true, and_true]
    exact ⟨⟨12345, rfl, by decide +kernel⟩, ⟨12346, rfl, by decide +kernel⟩⟩
  exact parse_incremental (by decide) hprices (by decide) 0 1 fun _ => 0

end Message

end MarketDataIncrementalRefreshToBinaryConverter

end BetaTrader
