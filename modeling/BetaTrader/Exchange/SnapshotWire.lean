import BetaTrader.Client.DepthReplica
import BetaTrader.Exchange.ReportWire

/-!
# Snapshots across the wire

The parser finds the repeating group of a snapshot by searching the text for its
tags.  The request id may look like any of them: what is found in it ends at its
separator, and the group begins behind that.
-/

namespace BetaTrader

open Decimal OutboundMessageBuilder

namespace MarketDataSnapshotFullRefreshToBinaryConverter

open FixMessageParser

/-- What the parser can read back: a price in ticks, and a position that `stoi`
reads. -/
structure OnWire (entry : MarketDataEntry Double) : Prop where
  price : ExecutionReportToBinaryConverter.PricedInTicks entry.price
  position : entry.entryPosition.toNat < 2 ^ 31

/-- The time of an entry is not sent. -/
def received (entry : MarketDataEntry Double) : MarketDataEntry Double :=
  { entry with entryTime := 0 }

/-- The fields of an entry behind its type. -/
def blockFields (entry : MarketDataEntry Double) : List (ℕ × Message) :=
  [(Tag.mdEntryPx, fixedText 4 entry.price), (Tag.mdEntrySize, natText entry.size.toNat)] ++
  (if 0 < entry.entryPosition then
    [(Tag.mdEntryPositionNo, natText entry.entryPosition.toNat)] else [])

variable {entry : MarketDataEntry Double} {entries : List (MarketDataEntry Double)}
  {digits : Message}

theorem entryFields_eq : entryFields entry =
    (Tag.mdEntryType, [entry.entryType.toChar]) :: blockFields entry := rfl

theorem ofChar_toChar (type : MDEntryType) : MDEntryType.ofChar type.toChar = type := by
  cases type <;> decide

/-- The fields in which a block ends: none, or the checksum. -/
def Closing (fields : List (ℕ × Message)) : Prop :=
  fields = [] ∨ ∃ digits, (∀ c ∈ digits, c.isDigit = true) ∧ fields = [(10, digits)]

/-- The values behind the type have no separators of any kind. -/
theorem blockFields_values {f : ℕ × Message} (hf : f ∈ blockFields entry) : Wire.Inert f.2 := by
  simp only [blockFields] at hf
  split_ifs at hf <;> simp only [List.mem_append, List.mem_cons, List.not_mem_nil, or_false] at hf
  · rcases hf with (rfl | rfl) | rfl
    · exact .fixedText 4 _
    · exact .natText _
    · exact .natText _
  · rcases hf with rfl | rfl
    · exact .fixedText 4 _
    · exact .natText _

theorem blockFields_tags {f : ℕ × Message} (hf : f ∈ blockFields entry) :
    f.1 = 270 ∨ f.1 = 271 ∨ f.1 = 290 := by
  simp only [blockFields] at hf
  split_ifs at hf <;> simp only [List.mem_append, List.mem_cons, List.not_mem_nil, or_false] at hf
  · rcases hf with (rfl | rfl) | rfl <;> simp
  · rcases hf with rfl | rfl <;> simp

theorem Closing.values {fields : List (ℕ × Message)} (h : Closing fields) {f : ℕ × Message}
    (hf : f ∈ fields) : Wire.Inert f.2 := by
  rcases h with rfl | ⟨digits, hdigits, rfl⟩
  · exact absurd hf List.not_mem_nil
  · rw [List.mem_singleton.mp hf]
    exact .of_isDigit hdigits

theorem Closing.tags {fields : List (ℕ × Message)} (h : Closing fields) {f : ℕ × Message}
    (hf : f ∈ fields) : f.1 = 10 := by
  rcases h with rfl | ⟨digits, hdigits, rfl⟩
  · exact absurd hf List.not_mem_nil
  · rw [List.mem_singleton.mp hf]

/-- A block has no type in it. -/
theorem not_type_isInfix {closing : List (ℕ × Message)} (hclosing : Closing closing)
    {f : ℕ × Message} (hf : f ∈ blockFields entry ++ closing) :
    ¬"269=".toList <:+: FixUtils.field f.1 f.2 := by
  refine Wire.not_isInfix_field (p := "269".toList) ?_ (by decide) ?_
  · rcases List.mem_append.mp hf with hf | hf
    · exact (blockFields_values hf).equals
    · exact (hclosing.values hf).equals
  · rcases List.mem_append.mp hf with hf | hf
    · have htag := blockFields_tags hf
      rcases htag with htag | htag | htag <;> rw [htag] <;> decide
    · rw [hclosing.tags hf]
      decide

/-- The map of a block. -/
theorem splitToMap_block {closing : List (ℕ × Message)} (hclosing : Closing closing) :
    FixUtils.splitToMap (ofFields (blockFields entry ++ closing)) soh =
      some (Wire.mapOf (blockFields entry ++ closing)) := by
  refine Wire.splitToMap_ofFields (fun f hf => ?_) fun f hf => ?_
  · rcases List.mem_append.mp hf with hf | hf
    · rcases blockFields_tags hf with htag | htag | htag <;> rw [htag] <;> decide
    · rw [hclosing.tags hf]
      decide
  · rcases List.mem_append.mp hf with hf | hf
    · exact (blockFields_values hf).soh
    · exact (hclosing.values hf).soh

theorem nodup_block {closing : List (ℕ × Message)} (hclosing : Closing closing) :
    ((blockFields entry ++ closing).map Prod.fst).Nodup := by
  rcases hclosing with rfl | ⟨digits, hdigits, rfl⟩ <;> rw [blockFields] <;> split_ifs <;> simp

theorem stoi_position {position : UInt32} (h : position.toNat < 2 ^ 31) :
    (Strtoul.stoi (natText position.toNat)).map UInt32.ofInt = some position := by
  have hmod : ((position.toNat : ℤ) % 2 ^ 32).toNat = position.toNat := by omega
  rw [stoi_natText h, Option.map_some, UInt32.ofInt, hmod, UInt32.ofNat_toNat]

/-- The values of an entry are read from its block. -/
theorem blockValues_block {closing : List (ℕ × Message)} (hclosing : Closing closing)
    (h : OnWire entry) : blockValues (Wire.mapOf (blockFields entry ++ closing)) =
      some (entry.price, entry.size, entry.entryPosition) := by
  have hmem {tag : ℕ} {value : Message} (hmem : (tag, value) ∈ blockFields entry) :
      Wire.mapOf (blockFields entry ++ closing) tag = some value :=
    Wire.mapOf_of_mem (nodup_block hclosing) (List.mem_append_left _ hmem)
  have hprice : Wire.mapOf (blockFields entry ++ closing) Tag.mdEntryPx =
      some (fixedText 4 entry.price) := hmem (by simp [blockFields])
  have hsize : Wire.mapOf (blockFields entry ++ closing) Tag.mdEntrySize =
      some (natText entry.size.toNat) := hmem (by simp [blockFields])
  have hposition : ((Wire.mapOf (blockFields entry ++ closing) Tag.mdEntryPositionNo).elim
      (some 0) Strtoul.stoi).map UInt32.ofInt = some entry.entryPosition := by
    by_cases hpos : 0 < entry.entryPosition
    · have hfield : Wire.mapOf (blockFields entry ++ closing) Tag.mdEntryPositionNo =
          some (natText entry.entryPosition.toNat) := hmem (by simp [blockFields, hpos])
      rw [hfield]
      exact stoi_position h.position
    · have hzero : entry.entryPosition = 0 := by simpa using hpos
      have hnot : Tag.mdEntryPositionNo ∉ (blockFields entry ++ closing).map Prod.fst := by
        rcases hclosing with rfl | ⟨digits, hdigits, rfl⟩ <;> simp [blockFields, hpos]
      rw [Wire.mapOf_of_notMem hnot, hzero]
      rfl
  obtain ⟨position, hposition, hcast⟩ := Option.map_eq_some_iff.mp hposition
  rw [blockValues, hprice, hsize, hposition]
  simp only [Option.elim_some, ExecutionReportToBinaryConverter.stod_fixedText_of_ticks h.price,
    stoull_natText, Option.bind_eq_bind, Option.bind_some, hcast]
  rfl

/-- The next block is that of the entry, wherever the text before it has no type. -/
theorem nextBlock_entry {skipped : List (ℕ × Message)} {closing : List (ℕ × Message)}
    {rest : Message} (hskipped : ∀ f ∈ skipped, ¬"269=".toList <:+: FixUtils.field f.1 f.2)
    (hclosing : Closing closing) (hrest : Text.cutFirst "269=".toList rest = ([], rest)) :
    nextBlock "269=".toList
        (ofFields skipped ++ (ofFields (entryFields entry ++ closing) ++ rest)) =
      some (entry.entryType.toChar, ofFields (blockFields entry ++ closing), rest) := by
  have htag : natText Tag.mdEntryType = "269".toList := rfl
  have hentry : ofFields (entryFields entry ++ closing) ++ rest = "269=".toList ++
      entry.entryType.toChar :: soh :: (ofFields (blockFields entry ++ closing) ++ rest) := by
    rw [entryFields_eq, List.cons_append, ofFields_cons, FixUtils.field, htag]
    simp
  rw [nextBlock, Wire.afterFirst_ofFields (by decide) hskipped, hentry,
    Text.afterFirst_append_self (by decide)]
  dsimp only
  rw [if_neg (by simp), List.drop_succ_cons, List.drop_succ_cons, List.drop_zero,
    Wire.cutFirst_ofFields (by decide) fun f hf => not_type_isInfix hclosing hf, hrest,
    List.append_nil]
  rfl

/-- The next entry begins where the block before it is cut. -/
theorem cutFirst_entries (entries : List (MarketDataEntry Double))
    (hdigits : ∀ c ∈ digits, c.isDigit = true) :
    ∃ closing rest, Closing closing ∧ Text.cutFirst "269=".toList rest = ([], rest) ∧
      ofFields closing ++ rest = ofFields (entries.flatMap entryFields ++ [(10, digits)]) ∧
      (entries = [] ∨ closing = []) := by
  cases entries with
  | nil => exact ⟨[(10, digits)], [], Or.inr ⟨digits, hdigits, rfl⟩, rfl, by simp, Or.inl rfl⟩
  | cons entry entries =>
      refine ⟨[], _, Or.inl rfl, ?_, List.nil_append _, Or.inr rfl⟩
      have htag : natText Tag.mdEntryType = "269".toList := rfl
      have hbegin : ofFields ((entry :: entries).flatMap entryFields ++ [(10, digits)]) =
          "269=".toList ++ entry.entryType.toChar :: soh ::
            ofFields (blockFields entry ++ (entries.flatMap entryFields ++ [(10, digits)])) := by
        rw [List.flatMap_cons, List.append_assoc, entryFields_eq, List.cons_append, ofFields_cons,
          FixUtils.field, htag]
        simp
      rw [hbegin, Text.cutFirst_append_self (by decide)]

/-- The loop of the parser reads the entries in their order. -/
theorem snapshotEntries_ofFields (hentries : ∀ entry ∈ entries, OnWire entry)
    (hdigits : ∀ c ∈ digits, c.isDigit = true) {skipped : List (ℕ × Message)}
    (hskipped : ∀ f ∈ skipped, ¬"269=".toList <:+: FixUtils.field f.1 f.2) :
    snapshotEntries entries.length
        (ofFields skipped ++ ofFields (entries.flatMap entryFields ++ [(10, digits)])) =
      some (entries.map received) := by
  induction entries generalizing skipped with
  | nil => rfl
  | cons entry entries ih =>
      obtain ⟨closing, rest, hclosing, hcut, hrest, hend⟩ :=
        cutFirst_entries entries hdigits
      have hsplit : ofFields ((entry :: entries).flatMap entryFields ++ [(10, digits)]) =
          ofFields (entryFields entry ++ closing) ++ rest := by
        rw [List.flatMap_cons, List.append_assoc, ofFields_append, ← hrest, ofFields_append,
          List.append_assoc]
      have hlater : snapshotEntries entries.length rest = some (entries.map received) := by
        rcases hend with rfl | rfl
        · rfl
        · have hstart : ∀ f ∈ ([] : List (ℕ × Message)),
              ¬"269=".toList <:+: FixUtils.field f.1 f.2 := by simp
          have hread := ih (fun e he => hentries e (List.mem_cons_of_mem entry he)) hstart
          rwa [← hrest] at hread
      rw [hsplit, List.length_cons, snapshotEntries, nextBlock_entry hskipped hclosing hcut]
      simp only [Option.bind_eq_bind, Option.bind_some, splitToMap_block hclosing,
        blockValues_block hclosing (hentries entry List.mem_cons_self), hlater, ofChar_toChar]
      rfl

/-! ## The message -/

section Message

variable (snapshot : MarketDataSnapshotFullRefresh Double) (msgSeqNum : UInt32) (now : Timestamp)

/-- The fields before the request id. -/
def headFields : List (ℕ × Message) :=
  [(8, "FIXT.1.1".toList), (9, natText
    ((ofFields (BinaryConverter.marketDataHeader 'W' snapshot.targetSessionID msgSeqNum now)).length +
      (ofFields (body snapshot)).length))] ++
  BinaryConverter.marketDataHeader 'W' snapshot.targetSessionID msgSeqNum now

def requestFields : List (ℕ × Message) :=
  if snapshot.mdReqID = "" then [] else [(Tag.mdReqID.number, snapshot.mdReqID.toList)]

/-- The fields between the request id and the group. -/
def countFields : List (ℕ × Message) :=
  [(Tag.symbol.number, snapshot.symbol.name), (Tag.noMDEntries, natText snapshot.entries.length)]

/-- The group and the checksum. -/
def groupFields : List (ℕ × Message) :=
  snapshot.entries.flatMap entryFields ++
    [(10, pad 3 (natText (Wire.checksum (ofFields (BinaryConverter.checkedFields
      "FIXT.1.1".toList
      (BinaryConverter.marketDataHeader 'W' snapshot.targetSessionID msgSeqNum now)
      (body snapshot))))))]

def fields : List (ℕ × Message) :=
  headFields snapshot msgSeqNum now ++ (requestFields snapshot ++ (countFields snapshot ++
    groupFields snapshot msgSeqNum now))

theorem convert_eq : convert snapshot msgSeqNum now = ofFields (fields snapshot msgSeqNum now) := by
  rw [convert, BinaryConverter.finalMessage_eq, fields, headFields, requestFields, countFields,
    groupFields, Wire.sealed, BinaryConverter.checkedFields, body]
  simp only [List.append_assoc, Tag.number]

variable {snapshot msgSeqNum now}

theorem headFields_values {f : ℕ × Message} (hf : f ∈ headFields snapshot msgSeqNum now) :
    Wire.Inert f.2 := by
  simp only [headFields, BinaryConverter.marketDataHeader, List.mem_append, List.mem_cons,
    List.not_mem_nil, or_false] at hf
  rcases hf with (rfl | rfl) | rfl | rfl | rfl | rfl | rfl
  · exact ⟨by decide, by decide⟩
  · exact .natText _
  · exact ⟨by decide, by decide⟩
  · exact ⟨by decide, by decide⟩
  · exact .natText _
  · exact .natText _
  · exact .generateTimestamp now

theorem map_fst_headFields :
    (headFields snapshot msgSeqNum now).map Prod.fst = [8, 9, 35, 49, 56, 34, 52] := rfl

theorem headFields_tag {f : ℕ × Message} (hf : f ∈ headFields snapshot msgSeqNum now) :
    f.1 ∈ [8, 9, 35, 49, 56, 34, 52] := by
  rw [← map_fst_headFields]
  exact List.mem_map_of_mem hf

theorem countFields_values {f : ℕ × Message} (hf : f ∈ countFields snapshot) :
    Wire.Inert f.2 := by
  simp only [countFields, List.mem_cons, List.not_mem_nil, or_false] at hf
  rcases hf with rfl | rfl
  · exact .name _
  · exact .natText _

theorem map_fst_countFields : (countFields snapshot).map Prod.fst = [55, 268] := rfl

theorem countFields_tag {f : ℕ × Message} (hf : f ∈ countFields snapshot) :
    f.1 ∈ [55, 268] := by
  rw [← map_fst_countFields]
  exact List.mem_map_of_mem hf

variable (snapshot) in
theorem requestFields_cases : requestFields snapshot = [] ∨
    requestFields snapshot = [(262, snapshot.mdReqID.toList)] := by
  rw [requestFields]
  split_ifs
  · exact Or.inl rfl
  · exact Or.inr rfl

/-- The fields behind the count, with their tags. -/
theorem groupFields_spec {f : ℕ × Message} (hf : f ∈ groupFields snapshot msgSeqNum now) :
    soh ∉ f.2 ∧ f.1 ∈ [269, 270, 271, 290, 10] := by
  rcases List.mem_append.mp hf with hf | hf
  · obtain ⟨entry, _, hf⟩ := List.mem_flatMap.mp hf
    rw [entryFields_eq, List.mem_cons] at hf
    rcases hf with rfl | hf
    · cases entry.entryType <;> exact ⟨by decide, by simp⟩
    · have htag := blockFields_tags hf
      exact ⟨(blockFields_values hf).soh, by rcases htag with htag | htag | htag <;> simp [htag]⟩
  · rw [List.mem_singleton.mp hf]
    exact ⟨(Plain.natText _).pad.soh_notMem, by simp⟩

/-- The parts of the message have the tags that the parser looks for only once. -/
theorem tag_notMem_groupFields {tag : ℕ} (h : tag ∉ [269, 270, 271, 290, 10]) :
    tag ∉ (groupFields snapshot msgSeqNum now).map Prod.fst := by
  intro hmem
  obtain ⟨f, hf, rfl⟩ := List.mem_map.mp hmem
  exact h (groupFields_spec hf).2

variable (msgSeqNum now) in
theorem splitToMap_convert (hrequest : soh ∉ snapshot.mdReqID.toList) :
    FixUtils.splitToMap (convert snapshot msgSeqNum now) soh =
      some (Wire.mapOf (fields snapshot msgSeqNum now)) := by
  rw [convert_eq]
  have hspec : ∀ f ∈ fields snapshot msgSeqNum now, soh ∉ f.2 ∧ f.1 < 2 ^ 31 := by
    intro f hf
    simp only [fields, List.mem_append] at hf
    rcases hf with hf | hf | hf | hf
    · have htag := headFields_tag hf
      refine ⟨(headFields_values hf).soh, ?_⟩
      simp only [List.mem_cons, List.not_mem_nil, or_false] at htag
      omega
    · rcases requestFields_cases snapshot with hempty | hone
      · rw [hempty] at hf
        exact absurd hf List.not_mem_nil
      · rw [hone] at hf
        rw [List.mem_singleton.mp hf]
        exact ⟨hrequest, by simp⟩
    · have htag := countFields_tag hf
      refine ⟨(countFields_values hf).soh, ?_⟩
      simp only [List.mem_cons, List.not_mem_nil, or_false] at htag
      omega
    · have htag := (groupFields_spec hf).2
      refine ⟨(groupFields_spec hf).1, ?_⟩
      simp only [List.mem_cons, List.not_mem_nil, or_false] at htag
      omega
  exact Wire.splitToMap_ofFields (fun f hf => (hspec f hf).2) fun f hf => (hspec f hf).1

/-- What the parser reads from the map. -/
structure Carries (map : FixUtils.TagMap) (snapshot : MarketDataSnapshotFullRefresh Double) :
    Prop where
  msgType : map Tag.msgType.number = some ['W']
  mdReqID : getStr map Tag.mdReqID.number = snapshot.mdReqID.toList
  symbol : getStr map Tag.symbol.number = snapshot.symbol.name
  noMDEntries : getStr map Tag.noMDEntries = natText snapshot.entries.length

variable (snapshot msgSeqNum now) in
theorem carries_fields : Carries (Wire.mapOf (fields snapshot msgSeqNum now)) snapshot := by
  have hrequest {tag : ℕ} (h : tag ≠ 262) : tag ∉ (requestFields snapshot).map Prod.fst := by
    rcases requestFields_cases snapshot with hempty | hone
    · simp [hempty]
    · simp [hone, h]
  have hlate {tag : ℕ} (hrequest : tag ∉ (requestFields snapshot).map Prod.fst)
      (hcount : tag ∉ [55, 268]) (hgroup : tag ∉ [269, 270, 271, 290, 10]) :
      tag ∉ (requestFields snapshot ++ (countFields snapshot ++
        groupFields snapshot msgSeqNum now)).map Prod.fst := by
    rw [List.map_append, List.map_append, map_fst_countFields, List.mem_append, List.mem_append,
      not_or, not_or]
    exact ⟨hrequest, hcount, tag_notMem_groupFields hgroup⟩
  refine ⟨?_, ?_, ?_, ?_⟩
  · have hsplit : fields snapshot msgSeqNum now =
        [(8, "FIXT.1.1".toList), (9, natText
          ((ofFields (BinaryConverter.marketDataHeader 'W' snapshot.targetSessionID msgSeqNum
            now)).length + (ofFields (body snapshot)).length))] ++
          (Tag.msgType.number, ['W']) :: ((BinaryConverter.marketDataHeader 'W'
            snapshot.targetSessionID msgSeqNum now).tail ++ (requestFields snapshot ++
              (countFields snapshot ++ groupFields snapshot msgSeqNum now))) := rfl
    rw [hsplit]
    refine Wire.mapOf_append_cons _ ?_
    rw [List.map_append, List.mem_append, not_or]
    exact ⟨by simp [BinaryConverter.marketDataHeader, Tag.number],
      hlate (hrequest (by decide)) (by decide) (by decide)⟩
  · rw [getStr]
    by_cases hempty : snapshot.mdReqID = ""
    · have hnone : requestFields snapshot = [] := if_pos hempty
      have hnot : Tag.mdReqID.number ∉ (fields snapshot msgSeqNum now).map Prod.fst := by
        rw [fields, List.map_append, map_fst_headFields, List.mem_append, not_or]
        exact ⟨by decide, hlate (by simp [hnone]) (by decide) (by decide)⟩
      rw [Wire.mapOf_of_notMem hnot, hempty]
      rfl
    · have hone : requestFields snapshot = [(Tag.mdReqID.number, snapshot.mdReqID.toList)] :=
        if_neg hempty
      rw [fields, hone, List.singleton_append, Wire.mapOf_append_cons, Option.getD_some]
      rw [List.map_append, map_fst_countFields, List.mem_append, not_or]
      exact ⟨by decide, tag_notMem_groupFields (by decide)⟩
  · rw [getStr, fields, countFields, List.cons_append, ← List.append_assoc,
      Wire.mapOf_append_cons, Option.getD_some]
    rw [List.singleton_append, List.map_cons, List.mem_cons, not_or]
    exact ⟨by simp [Tag.number], tag_notMem_groupFields (by decide)⟩
  · have hsplit : fields snapshot msgSeqNum now = (headFields snapshot msgSeqNum now ++
        requestFields snapshot ++ [(Tag.symbol.number, snapshot.symbol.name)]) ++
          (Tag.noMDEntries, natText snapshot.entries.length) ::
            groupFields snapshot msgSeqNum now := by
      simp [fields, countFields]
    rw [getStr, hsplit, Wire.mapOf_append_cons _ (tag_notMem_groupFields (by decide)),
      Option.getD_some]

variable (msgSeqNum now) in
/-- Where the parser begins to read the group: at its first entry, or at the end of
a request id that looks like the count. -/
theorem exists_afterFirst_convert (hrequest : soh ∉ snapshot.mdReqID.toList) :
    ∃ skipped : List (ℕ × Message),
      (∀ f ∈ skipped, ¬"269=".toList <:+: FixUtils.field f.1 f.2) ∧
      Text.afterFirst ("268=".toList ++ natText snapshot.entries.length ++ [soh])
          (convert snapshot msgSeqNum now) =
        some (ofFields skipped ++ ofFields (groupFields snapshot msgSeqNum now)) := by
  have hmark : soh ∉ "268=".toList ++ natText snapshot.entries.length := by
    rw [List.mem_append, not_or]
    exact ⟨by decide, (Plain.natText _).soh_notMem⟩
  have hnoCount {f : ℕ × Message} (hvalue : '=' ∉ f.2) (htag : ¬"268".toList <:+ natText f.1) :
      ¬("268=".toList ++ natText snapshot.entries.length) <:+ FixUtils.field f.1 f.2 := by
    intro hsuffix
    refine Wire.not_isInfix_field hvalue (by decide) htag ?_
    exact (List.prefix_append "268=".toList _).isInfix.trans hsuffix.isInfix
  have hhead : ∀ f ∈ headFields snapshot msgSeqNum now,
      ¬("268=".toList ++ natText snapshot.entries.length) <:+ FixUtils.field f.1 f.2 := by
    intro f hf
    refine hnoCount (headFields_values hf).equals ?_
    have htag := headFields_tag hf
    simp only [List.mem_cons, List.not_mem_nil, or_false] at htag
    rcases htag with h | h | h | h | h | h | h <;> rw [h] <;> decide
  have hsymbol : ¬("268=".toList ++ natText snapshot.entries.length) <:+
      FixUtils.field 55 snapshot.symbol.name := by
    refine hnoCount (f := (55, snapshot.symbol.name)) (Wire.Inert.name _).equals ?_
    change ¬"268".toList <:+ natText 55
    decide
  have hname : soh ∉ FixUtils.field 55 snapshot.symbol.name :=
    FixUtils.soh_notMem_field (Wire.Inert.name _).soh
  have hnumber : FixUtils.field 268 (natText snapshot.entries.length) =
      "268=".toList ++ natText snapshot.entries.length := rfl
  -- at the count itself
  have hcount : Text.afterFirst ("268=".toList ++ natText snapshot.entries.length ++ [soh])
      (ofFields (countFields snapshot) ++ ofFields (groupFields snapshot msgSeqNum now)) =
        some (ofFields (groupFields snapshot msgSeqNum now)) := by
    have hsplit : ofFields (countFields snapshot) ++ ofFields (groupFields snapshot msgSeqNum now) =
        FixUtils.field 55 snapshot.symbol.name ++ soh ::
          (FixUtils.field 268 (natText snapshot.entries.length) ++ soh ::
            ofFields (groupFields snapshot msgSeqNum now)) := by
      simp [countFields, Tag.number]
    rw [hsplit, Text.afterFirst_closed_skip hmark hname hsymbol, hnumber,
      Text.afterFirst_closed_of_isSuffix hmark hmark List.suffix_rfl]
  rw [convert_eq, fields, ofFields_append, ofFields_append, ofFields_append,
    Wire.afterFirst_closed_ofFields hmark (fun f hf => (headFields_values hf).soh) hhead]
  rcases requestFields_cases snapshot with hempty | hone
  · refine ⟨[], by simp, ?_⟩
    rw [hempty, ofFields_nil, List.nil_append, hcount, List.nil_append]
  · have hfield : soh ∉ FixUtils.field 262 snapshot.mdReqID.toList :=
      FixUtils.soh_notMem_field hrequest
    have hone' (t : Message) : ofFields (requestFields snapshot) ++ t =
        FixUtils.field 262 snapshot.mdReqID.toList ++ soh :: t := by
      simp [hone]
    rw [hone']
    by_cases hlike : ("268=".toList ++ natText snapshot.entries.length) <:+
        FixUtils.field 262 snapshot.mdReqID.toList
    · refine ⟨countFields snapshot, fun f hf => ?_, ?_⟩
      · have htag := countFields_tag hf
        refine Wire.not_isInfix_field (p := "269".toList) (countFields_values hf).equals
          (by decide) ?_
        simp only [List.mem_cons, List.not_mem_nil, or_false] at htag
        rcases htag with h | h <;> rw [h] <;> decide
      · rw [Text.afterFirst_closed_of_isSuffix hmark hfield hlike]
    · refine ⟨[], by simp, ?_⟩
      rw [Text.afterFirst_closed_skip hmark hfield hlike, hcount, ofFields_nil, List.nil_append]

/-- A snapshot comes back without the session and the times. -/
theorem parse_snapshot (hrequest : soh ∉ snapshot.mdReqID.toList)
    (hentries : ∀ entry ∈ snapshot.entries, OnWire entry)
    (hlength : snapshot.entries.length < 2 ^ 31) (utcOffset : ℤ) :
    parse utcOffset (convert snapshot msgSeqNum now) =
      .snapshot { snapshot with
        targetSessionID := 0
        entries := snapshot.entries.map received } := by
  have hmap := splitToMap_convert msgSeqNum now hrequest
  have hcarries := carries_fields snapshot msgSeqNum now
  have hchecksum : checkChecksum (convert snapshot msgSeqNum now) = some () :=
    checkChecksum_sealed (List.cons_ne_nil _ _)
  obtain ⟨skipped, hskipped, hstart⟩ := exists_afterFirst_convert msgSeqNum now hrequest
  have hgroup : snapshotEntries snapshot.entries.length
      (ofFields skipped ++ ofFields (groupFields snapshot msgSeqNum now)) =
        some (snapshot.entries.map received) :=
    snapshotEntries_ofFields hentries (fun _ => isDigit_of_mem_pad) hskipped
  have hsnapshot : parseMarketDataSnapshot (convert snapshot msgSeqNum now) =
      some { snapshot with
        targetSessionID := 0
        entries := snapshot.entries.map received } := by
    rw [parseMarketDataSnapshot, hmap, Option.bind_eq_bind, Option.bind_some, hcarries.mdReqID,
      hcarries.symbol, hcarries.noMDEntries, Instrument.fromString_name]
    simp only [Option.bind_some, if_neg natText_ne_nil, stoi_natText hlength, hstart,
      Option.elim_some, Int.toNat_natCast, hgroup, String.ofList_toList, Option.bind_eq_bind]
    rfl
  have htype : (Wire.mapOf (fields snapshot msgSeqNum now) Tag.msgType.number).bind List.head? =
      some 'W' := by
    rw [hcarries.msgType]
    rfl
  rw [parse, hchecksum, hmap]
  simp [htype, hsnapshot]

end Message

end MarketDataSnapshotFullRefreshToBinaryConverter

/-! ## From book to book -/

namespace OrderBook

open MarketDataSnapshotFullRefreshToBinaryConverter

/-- The sum of the open quantities of a level. -/
def levelTotal (manager : OrderManager Double) (level : PriceLevel) : ℕ :=
  Allocation.total Order.openQuantity (Matcher.restingOrders manager level)

/-- The aggregated depth: prices and totals. -/
def aggregatedDepth (book : OrderBook Double) (manager : OrderManager Double) (side : OrderSide)
    (price : Double) : Option ℕ :=
  ((book.sideMap side).find? fun l => l.1 = price).map fun l => levelTotal manager l.2

/-- What is assumed of a side: the pointers are good, no level is empty, the prices
are distinct and in ticks, and the totals fit in a quantity. -/
structure Publishable (manager : OrderManager Double) (map : PriceMap Double) : Prop where
  managed : ∀ l ∈ map, ∀ ptr ∈ l.2, ∃ order, manager.orderMap ptr = some order
  noEmpty : ∀ l ∈ map, l.2 ≠ []
  distinct : (map.map Prod.fst).Nodup
  ticks : ∀ l ∈ map, ExecutionReportToBinaryConverter.PricedInTicks l.1
  totals : ∀ l ∈ map, levelTotal manager l.2 < 2 ^ 64

theorem Publishable.tail {manager : OrderManager Double} {l : Double × PriceLevel}
    {map : PriceMap Double} (h : Publishable manager (l :: map)) : Publishable manager map where
  managed := fun l' hl' => h.managed l' (List.mem_cons_of_mem l hl')
  noEmpty := fun l' hl' => h.noEmpty l' (List.mem_cons_of_mem l hl')
  distinct := (List.nodup_cons.mp h.distinct).2
  ticks := fun l' hl' => h.ticks l' (List.mem_cons_of_mem l hl')
  totals := fun l' hl' => h.totals l' (List.mem_cons_of_mem l hl')

/-- The entry tells the price and the total of the level. -/
structure Tells (manager : OrderManager Double) (side : OrderSide) (entry : MarketDataEntry Double)
    (l : Double × PriceLevel) : Prop where
  entryType : entry.entryType = side.entryType
  price : entry.price = l.1
  size : entry.size.toNat = levelTotal manager l.2

variable {manager : OrderManager Double} {map : PriceMap Double} {side : OrderSide}

/-- The loop of `publishSnapshot` makes an entry for every level. -/
theorem snapshotEntries_spec (h : Publishable manager map) (side : OrderSide) {position : ℕ}
    (hposition : position + map.length ≤ 2 ^ 31) :
    ∃ entries, snapshotEntries manager side.entryType (UInt32.ofNat position) map = some entries ∧
      List.Forall₂ (Tells manager side) entries map ∧ ∀ entry ∈ entries, OnWire entry := by
  induction map generalizing position with
  | nil => exact ⟨[], rfl, .nil, by simp⟩
  | cons l map ih =>
      rw [List.length_cons] at hposition
      obtain ⟨price, level⟩ := l
      have hlater : position + 1 + map.length ≤ 2 ^ 31 := by omega
      obtain ⟨entries, hentries, htells, hwire⟩ := ih h.tail hlater
      obtain ⟨front, orders, rfl⟩ :=
        List.exists_cons_of_ne_nil (h.noEmpty (price, level) List.mem_cons_self)
      have hmanaged := h.managed (price, front :: orders) List.mem_cons_self
      obtain ⟨first, hfirst⟩ := hmanaged front List.mem_cons_self
      have htotal := Partition.totalQuantity_eq_of_managed hmanaged
      have hnext : UInt32.ofNat position + 1 = UInt32.ofNat (position + 1) := by
        rw [UInt32.ofNat_add]
        rfl
      refine ⟨_, by
        simp only [snapshotEntries, htotal, OrderManager.deref, hfirst, hnext, hentries,
          Option.bind_eq_bind, Option.bind_some]
        rfl, .cons ⟨rfl, rfl, ?_⟩ htells, ?_⟩
      · exact UInt64.toNat_ofNat_of_lt' (h.totals (price, front :: orders) List.mem_cons_self)
      · refine List.forall_mem_cons.mpr ⟨⟨h.ticks _ List.mem_cons_self, ?_⟩, hwire⟩
        change (UInt32.ofNat position).toNat < 2 ^ 31
        rw [UInt32.toNat_ofNat']
        omega

/-- What the client's map is after the entries of a side. -/
theorem sideMap_foldl_tells {entries : List (MarketDataEntry Double)}
    (htells : List.Forall₂ (Tells manager side) entries map)
    (hdistinct : (map.map Prod.fst).Nodup) (client : Client.OrderBook Double)
    (side' : OrderSide) (price : Double) :
    ((entries.foldl Client.OrderBook.setLevel client).sideMap side' price).map UInt64.toNat =
      if side' = side ∧ (map.find? fun l => l.1 = price).isSome then
        (map.find? fun l => l.1 = price).map fun l => levelTotal manager l.2
      else (client.sideMap side' price).map UInt64.toNat := by
  induction htells generalizing client with
  | nil => simp
  | @cons entry l entries map htell htells ih =>
      obtain ⟨hfresh, hdistinct⟩ := List.nodup_cons.mp hdistinct
      rw [List.foldl_cons, ih hdistinct, Client.OrderBook.sideMap_setLevel htell.entryType,
        htell.price]
      by_cases hprice : l.1 = price
      · have hnone : (map.find? fun l => l.1 = price) = none := by
          refine List.find?_eq_none.mpr fun l' hl' heq => hfresh ?_
          rw [hprice, ← of_decide_eq_true heq]
          exact List.mem_map_of_mem hl'
        rw [List.find?_cons_of_pos (by simpa using hprice), hnone]
        by_cases hside : side' = side <;> simp [hside, hprice, htell.size]
      · have hprice' : ¬price = l.1 := fun heq => hprice heq.symm
        rw [List.find?_cons_of_neg (by simpa using hprice)]
        simp [hprice']

/-- The times play no role for the client. -/
theorem foldl_setLevel_received (entries : List (MarketDataEntry Double))
    (client : Client.OrderBook Double) :
    (entries.map received).foldl Client.OrderBook.setLevel client =
      entries.foldl Client.OrderBook.setLevel client := by
  rw [List.foldl_map]
  rfl

/-- The client's maps are the aggregated depth of the book, whatever the client had
before. -/
theorem snapshot_reproduces_book {book : OrderBook Double}
    (h : ∀ side, Publishable manager (book.sideMap side))
    (hfew : book.bidMap.length + book.askMap.length < 2 ^ 31) (sessionId : SessionID)
    {mdReqID : String} (hrequest : soh ∉ mdReqID.toList) (msgSeqNum : UInt32) (now : Timestamp)
    (utcOffset : ℤ) (client : Client.OrderBook Double) :
    ∃ snapshot, book.publishSnapshot manager sessionId = some snapshot ∧
      ∃ parsed, FixMessageParser.parse utcOffset
          (convert { snapshot with mdReqID := mdReqID } msgSeqNum now) = .snapshot parsed ∧
        ∀ side price, ((client.handleSnapshot parsed).sideMap side price).map UInt64.toNat =
          book.aggregatedDepth manager side price := by
  have hbuy : 1 + (book.sideMap .buy).length ≤ 2 ^ 31 := by
    simp only [sideMap]
    omega
  have hsell : 1 + (book.sideMap .sell).length ≤ 2 ^ 31 := by
    simp only [sideMap]
    omega
  obtain ⟨bids, hbids, hbidTells, hbidWire⟩ :=
    snapshotEntries_spec (h .buy) .buy hbuy
  obtain ⟨asks, hasks, haskTells, haskWire⟩ :=
    snapshotEntries_spec (h .sell) .sell hsell
  have hlength : (bids ++ asks).length < 2 ^ 31 := by
    rw [List.length_append, hbidTells.length_eq, haskTells.length_eq]
    exact hfew
  have hwire : ∀ entry ∈ bids ++ asks, OnWire entry :=
    List.forall_mem_append.mpr ⟨hbidWire, haskWire⟩
  refine ⟨_, by
    simp only [publishSnapshot]
    rw [show snapshotEntries manager .bid 1 book.bidMap = some bids from hbids,
      show snapshotEntries manager .offer 1 book.askMap = some asks from hasks]
    rfl, _, parse_snapshot hrequest hwire hlength utcOffset, fun side price => ?_⟩
  have hcleared : (⟨fun _ => none, fun _ => none⟩ : Client.OrderBook Double).sideMap side price =
      none := by
    cases side <;> rfl
  simp only [Client.OrderBook.handleSnapshot, foldl_setLevel_received, List.foldl_append]
  rw [sideMap_foldl_tells haskTells (h .sell).distinct,
    sideMap_foldl_tells hbidTells (h .buy).distinct, hcleared]
  cases side with
  | buy =>
      cases hfind : (book.sideMap .buy).find? fun l => l.1 = price <;>
        simp [hfind, aggregatedDepth]
  | sell =>
      cases hfind : (book.sideMap .sell).find? fun l => l.1 = price <;>
        simp [hfind, aggregatedDepth]

namespace Sample

def order (id : OrderID) (side : OrderSide) (quantity : Quantity) (price : Double) :
    Order Double where
  clientOrderId := ""
  coreOrderId := id
  symbol := .eurusd
  clientId := ""
  senderCompID := ""
  side := side
  orderType := .limit
  timeInForce := .gtc
  originalQuantity := quantity
  remainingQuantity := quantity
  price := price
  timestamp := 0
  status := .new

def bid : Double := .finite ((12345 : ℤ) / 10 ^ 4)

def ask : Double := .finite ((12346 : ℤ) / 10 ^ 4)

def orders : OrderManager Double where
  orderMap := fun id => if id = 1 then some (order 1 .buy 5 bid) else
    if id = 2 then some (order 2 .buy 7 bid) else some (order 3 .sell 2 ask)
  destroyed := fun _ => none

/-- Two orders at one price, and one on the other side. -/
def book : OrderBook Double := ⟨.eurusd, [(bid, [1, 2])], [(ask, [3])]⟩

theorem publishable_book (side : OrderSide) : Publishable orders (book.sideMap side) := by
  cases side with
  | buy =>
      change Publishable orders [(bid, [1, 2])]
      refine ⟨?_, by simp, by simp, ?_, ?_⟩
      · simp [orders]
      · simp only [List.mem_singleton, forall_eq]
        exact ⟨12345, rfl, by decide +kernel⟩
      · simp only [List.mem_singleton, forall_eq]
        decide +kernel
  | sell =>
      change Publishable orders [(ask, [3])]
      refine ⟨?_, by simp, by simp, ?_, ?_⟩
      · simp [orders]
      · simp only [List.mem_singleton, forall_eq]
        exact ⟨12346, rfl, by decide +kernel⟩
      · simp only [List.mem_singleton, forall_eq]
        decide +kernel

end Sample

/-- A request id that looks like the count of the entries and like an entry. -/
theorem snapshot_reproduces_book_sample :
    ∃ snapshot, Sample.book.publishSnapshot Sample.orders 1 = some snapshot ∧
      ∃ parsed, FixMessageParser.parse 0
          (convert { snapshot with mdReqID := "269=1268=2" } 1 0) = .snapshot parsed ∧
        ∀ side price, (((⟨fun _ => none, fun _ => some 9⟩ : Client.OrderBook Double).handleSnapshot
          parsed).sideMap side price).map UInt64.toNat =
          Sample.book.aggregatedDepth Sample.orders side price :=
  snapshot_reproduces_book Sample.publishable_book (by decide) 1 (by decide) 1 0 0
    ⟨fun _ => none, fun _ => some 9⟩

end OrderBook

end BetaTrader
