import BetaTrader.Client.ClientFraming
import BetaTrader.Client.ClientFraming
import BetaTrader.Exchange.ReportWire
import Mathlib.Data.List.TakeWhile

/-!
# The client frames what the server sends

Every message of the server is a list of fields, the last of which is the
checksum.  The client takes the text up to the first field that has `10=` in it:
the whole message, unless a string that somebody supplied has it too.
-/

namespace BetaTrader

open Decimal OutboundMessageBuilder

/-- What the encoders of the server are given. -/
inductive ServerMessage where
  | built (senderCompId targetCompId : Message) (msgSeqNum : UInt32) (msgType : Message)
      (body : List (ℕ × Message)) (now : Timestamp)
  | report (report : ExecutionReport Double) (msgSeqNum : UInt32) (now : Timestamp)
  | snapshot (snapshot : MarketDataSnapshotFullRefresh Double) (msgSeqNum : UInt32)
      (now : Timestamp)
  | refresh (refresh : MarketDataIncrementalRefresh Double) (msgSeqNum : UInt32) (clock : Clock)

namespace ServerMessage

/-- What they make of it. -/
def text : ServerMessage → Message
  | .built sender target msgSeqNum msgType body now =>
      buildMessage sender target msgSeqNum msgType (ofFields body) now
  | .report r msgSeqNum now => ExecutionReportToBinaryConverter.convert r msgSeqNum now
  | .snapshot s msgSeqNum now =>
      MarketDataSnapshotFullRefreshToBinaryConverter.convert s msgSeqNum now
  | .refresh r msgSeqNum clock =>
      MarketDataIncrementalRefreshToBinaryConverter.convert r msgSeqNum clock

/-- The strings that the encoders copy. -/
def strings : ServerMessage → List Message
  | .built sender target _ msgType body _ => sender :: target :: msgType :: body.map Prod.snd
  | .report r _ _ => [r.clientOrderId.toList, r.executionId.toList, r.text.toList]
  | .snapshot s _ _ => [s.mdReqID.toList]
  | .refresh r _ _ => [r.mdReqID.toList]

/-- The tags of the bodies that are handed to `buildMessage`. -/
def bodyTags : List ℕ := [45, 58, 98, 108, 112, 372, 379]

def tags : ServerMessage → List ℕ
  | .built _ _ _ _ body _ => body.map Prod.fst
  | _ => []

/-- No string has a separator, and the bodies are those of the server. -/
structure Sendable (m : ServerMessage) : Prop where
  strings : ∀ s ∈ m.strings, soh ∉ s
  tags : ∀ tag ∈ m.tags, tag ∈ bodyTags

/-! ## The fields of a message -/

def beginString : ServerMessage → Message
  | .built .. => "FIX.4.4".toList
  | .report .. => "FIX.4.4".toList
  | .snapshot .. => "FIXT.1.1".toList
  | .refresh .. => "FIXT.1.1".toList

/-- The fields behind BodyLength. -/
def payload : ServerMessage → List (ℕ × Message)
  | .built sender target msgSeqNum msgType body now =>
      payloadFields sender target msgSeqNum msgType body now
  | .report r msgSeqNum now => ExecutionReportToBinaryConverter.header r msgSeqNum now ++
      ExecutionReportToBinaryConverter.body r
  | .snapshot s msgSeqNum now =>
      BinaryConverter.marketDataHeader 'W' s.targetSessionID msgSeqNum now ++
        MarketDataSnapshotFullRefreshToBinaryConverter.body s
  | .refresh r msgSeqNum clock =>
      BinaryConverter.marketDataHeader 'X' (r.targetSessionID.getD 0) msgSeqNum
        (clock r.entries.length) ++ MarketDataIncrementalRefreshToBinaryConverter.body r clock

/-- The first two fields. -/
def head (m : ServerMessage) : List (ℕ × Message) :=
  [(8, m.beginString), (9, natText (ofFields m.payload).length)]

/-- The checksum as it is written. -/
def sum (m : ServerMessage) : Message :=
  match m with
  | .built .. => pad 3 (intText (checksum (ofFields (m.head ++ m.payload))))
  | _ => pad 3 (natText (Wire.checksum (ofFields (m.head ++ m.payload))))

def fields (m : ServerMessage) : List (ℕ × Message) := m.head ++ (m.payload ++ [(10, m.sum)])

/-- The fields of a message of a converter. -/
theorem finalMessage_eq_fields (m : ServerMessage) {header body : List (ℕ × Message)}
    (hpayload : m.payload = header ++ body)
    (hsum : m.sum = pad 3 (natText (Wire.checksum (ofFields (m.head ++ m.payload))))) :
    BinaryConverter.finalMessage m.beginString header body = ofFields m.fields := by
  have hchecked : BinaryConverter.checkedFields m.beginString header body =
      m.head ++ m.payload := by
    rw [BinaryConverter.checkedFields, head, hpayload, ofFields_append, List.length_append]
  rw [BinaryConverter.finalMessage_eq, Wire.sealed, hchecked, fields, hsum, ← List.append_assoc]
  rfl

theorem text_eq (m : ServerMessage) : m.text = ofFields m.fields := by
  cases m with
  | built sender target msgSeqNum msgType body now =>
      have hchecked : (built sender target msgSeqNum msgType body now).head ++
          (built sender target msgSeqNum msgType body now).payload =
          checkedFields (payloadFields sender target msgSeqNum msgType body now) := rfl
      rw [text, buildMessage_eq_ofFields, fields, ← List.append_assoc, sum, hchecked]
  | report r msgSeqNum now => exact finalMessage_eq_fields (report r msgSeqNum now) rfl rfl
  | snapshot s msgSeqNum now => exact finalMessage_eq_fields (snapshot s msgSeqNum now) rfl rfl
  | refresh r msgSeqNum clock => exact finalMessage_eq_fields (refresh r msgSeqNum clock) rfl rfl

/-! ## What is in the fields -/

/-- The tags behind BodyLength. -/
def payloadTags : List ℕ :=
  [35, 49, 56, 34, 52] ++ bodyTags ++ [37, 11, 17, 39, 55, 54, 38, 14, 151, 31, 32, 60] ++
    [262, 268, 269, 270, 271, 290, 279, 273]

/-- None of them is BodyLength, and none ends like the tag of the checksum. -/
theorem payloadTags_spec : ∀ tag ∈ payloadTags, tag ≠ 9 ∧ ¬['1', '0'] <:+ natText tag := by
  decide

/-- A field has a known tag, and its value is a string that has been supplied, or
looks like nothing. -/
structure Known (m : ServerMessage) (f : ℕ × Message) : Prop where
  tag : f.1 ∈ payloadTags
  value : f.2 ∈ m.strings ∨ Wire.Inert f.2

section Known

variable {m : ServerMessage} {tag : ℕ} {value : Message}

theorem Known.supplied (htag : tag ∈ payloadTags) (h : value ∈ m.strings) : m.Known (tag, value) :=
  ⟨htag, Or.inl h⟩

theorem Known.inert (htag : tag ∈ payloadTags) (h : Wire.Inert value) : m.Known (tag, value) :=
  ⟨htag, Or.inr h⟩

theorem inert_timeOfDay (now : Timestamp) :
    Wire.Inert (MarketDataIncrementalRefreshToBinaryConverter.timeOfDay now) := by
  have hpad (width : ℕ) (n : ℤ) : Wire.Inert (pad width (intText n)) :=
    (Wire.Inert.intText n).pad width
  exact (hpad 2 _).append (.cons (by decide) (by decide) ((hpad 2 _).append
    (.cons (by decide) (by decide) ((hpad 2 _).append (.cons (by decide) (by decide)
      (hpad 3 _))))))

theorem inert_entryType (type : MDEntryType) : Wire.Inert [type.toChar] := by
  cases type <;> exact ⟨by decide, by decide⟩

theorem inert_updateAction (action : MDUpdateAction) : Wire.Inert [action.toChar] := by
  cases action <;> exact ⟨by decide, by decide⟩

theorem known_report (r : ExecutionReport Double) (msgSeqNum : UInt32) (now : Timestamp) :
    ∀ f ∈ (report r msgSeqNum now).payload, (report r msgSeqNum now).Known f := by
  have hstatus : Wire.Inert [ExecutionReportToBinaryConverter.orderStatusToChar r.status] := by
    cases r.status <;> exact ⟨by decide, by decide⟩
  have hside : Wire.Inert [ExecutionReportToBinaryConverter.orderSideToChar r.side] := by
    cases r.side <;> exact ⟨by decide, by decide⟩
  have htext : ∀ f ∈ (if r.text = "" then [] else [(Tag.text.number, r.text.toList)]),
      (report r msgSeqNum now).Known f := by
    split_ifs
    · simp
    · simp only [List.forall_mem_singleton]
      exact .supplied (by decide) (by simp [strings])
  simp only [payload, ExecutionReportToBinaryConverter.header,
    ExecutionReportToBinaryConverter.body, List.forall_mem_append, List.forall_mem_cons,
    List.not_mem_nil, IsEmpty.forall_iff, implies_true, and_true]
  exact ⟨⟨.inert (by decide) ⟨by decide, by decide⟩, .inert (by decide) (.natText _),
    .inert (by decide) (.natText _), .inert (by decide) (.natText _),
    .inert (by decide) (.generateTimestamp _)⟩,
    ⟨⟨.inert (by decide) (.natText _), .supplied (by decide) (by simp [strings]),
      .supplied (by decide) (by simp [strings]), .inert (by decide) hstatus⟩, htext⟩,
    .inert (by decide) (.name _), .inert (by decide) hside, .inert (by decide) (.natText _),
    .inert (by decide) (.natText _), .inert (by decide) (.natText _),
    .inert (by decide) (.fixedText 4 _), .inert (by decide) (.natText _),
    .inert (by decide) (.generateTimestamp _)⟩

/-- The header of market data and the request id. -/
theorem known_marketDataHeader {msgType : Char} (htype : Wire.Inert [msgType])
    (targetSessionID msgSeqNum : UInt32) (now : Timestamp) :
    ∀ f ∈ BinaryConverter.marketDataHeader msgType targetSessionID msgSeqNum now, m.Known f := by
  simp only [BinaryConverter.marketDataHeader, List.forall_mem_cons, List.not_mem_nil,
    IsEmpty.forall_iff, implies_true, and_true]
  exact ⟨.inert (by decide) htype, .inert (by decide) ⟨by decide, by decide⟩,
    .inert (by decide) (.natText _), .inert (by decide) (.natText _),
    .inert (by decide) (.generateTimestamp _)⟩

theorem known_mdReqID {mdReqID : String} (h : mdReqID.toList ∈ m.strings) :
    ∀ f ∈ (if mdReqID = "" then [] else [(Tag.mdReqID.number, mdReqID.toList)]), m.Known f := by
  split_ifs
  · simp
  · simp only [List.forall_mem_singleton]
    exact .supplied (by decide) h

theorem known_snapshot (s : MarketDataSnapshotFullRefresh Double) (msgSeqNum : UInt32)
    (now : Timestamp) :
    ∀ f ∈ (snapshot s msgSeqNum now).payload, (snapshot s msgSeqNum now).Known f := by
  have hentry (entry : MarketDataEntry Double) :
      ∀ f ∈ MarketDataSnapshotFullRefreshToBinaryConverter.entryFields entry,
        (snapshot s msgSeqNum now).Known f := by
    have hposition : ∀ f ∈ (if 0 < entry.entryPosition then
        [(Tag.mdEntryPositionNo, natText entry.entryPosition.toNat)] else []),
        (snapshot s msgSeqNum now).Known f := by
      split_ifs
      · simp only [List.forall_mem_singleton]
        exact .inert (by decide) (.natText _)
      · simp
    simp only [MarketDataSnapshotFullRefreshToBinaryConverter.entryFields,
      List.forall_mem_append, List.forall_mem_cons, List.not_mem_nil, IsEmpty.forall_iff,
      implies_true, and_true]
    exact ⟨⟨.inert (by decide) (inert_entryType _), .inert (by decide) (.fixedText 4 _),
      .inert (by decide) (.natText _)⟩, hposition⟩
  have hgroup : ∀ f ∈ s.entries.flatMap MarketDataSnapshotFullRefreshToBinaryConverter.entryFields,
      (snapshot s msgSeqNum now).Known f := by
    intro f hf
    obtain ⟨entry, _, hf⟩ := List.mem_flatMap.mp hf
    exact hentry entry f hf
  simp only [payload, MarketDataSnapshotFullRefreshToBinaryConverter.body,
    List.forall_mem_append, List.forall_mem_cons, List.not_mem_nil, IsEmpty.forall_iff,
    implies_true, and_true]
  exact ⟨known_marketDataHeader ⟨by decide, by decide⟩ _ _ _,
    ⟨known_mdReqID (by simp [strings]), .inert (by decide) (.name _),
      .inert (by decide) (.natText _)⟩, hgroup⟩

theorem known_refresh (r : MarketDataIncrementalRefresh Double) (msgSeqNum : UInt32)
    (clock : Clock) :
    ∀ f ∈ (refresh r msgSeqNum clock).payload, (refresh r msgSeqNum clock).Known f := by
  have hentry (e : MarketDataIncrementalEntry Double × ℕ) :
      ∀ f ∈ MarketDataIncrementalRefreshToBinaryConverter.entryFields r.symbol e.1 (clock e.2),
        (refresh r msgSeqNum clock).Known f := by
    simp only [MarketDataIncrementalRefreshToBinaryConverter.entryFields, List.forall_mem_cons,
      List.not_mem_nil, IsEmpty.forall_iff, implies_true, and_true]
    exact ⟨.inert (by decide) (inert_updateAction _), .inert (by decide) (inert_entryType _),
      .inert (by decide) (.name _), .inert (by decide) (.fixedText 4 _),
      .inert (by decide) (.natText _), .inert (by decide) (inert_timeOfDay _)⟩
  have hgroup : ∀ f ∈ r.entries.zipIdx.flatMap fun e =>
      MarketDataIncrementalRefreshToBinaryConverter.entryFields r.symbol e.1 (clock e.2),
      (refresh r msgSeqNum clock).Known f := by
    intro f hf
    obtain ⟨e, _, hf⟩ := List.mem_flatMap.mp hf
    exact hentry e f hf
  simp only [payload, MarketDataIncrementalRefreshToBinaryConverter.body,
    List.forall_mem_append, List.forall_mem_cons, List.not_mem_nil, IsEmpty.forall_iff,
    implies_true, and_true]
  exact ⟨known_marketDataHeader ⟨by decide, by decide⟩ _ _ _,
    ⟨known_mdReqID (by simp [strings]), .inert (by decide) (.natText _)⟩, hgroup⟩

theorem known_built {sender target msgType : Message} {msgSeqNum : UInt32}
    {bodyFields : List (ℕ × Message)} {now : Timestamp}
    (htags : ∀ tag ∈ bodyFields.map Prod.fst, tag ∈ bodyTags) :
    ∀ f ∈ (built sender target msgSeqNum msgType bodyFields now).payload,
      (built sender target msgSeqNum msgType bodyFields now).Known f := by
  have hbody : ∀ f ∈ bodyFields,
      (built sender target msgSeqNum msgType bodyFields now).Known f := by
    intro f hf
    have htag := htags f.1 (List.mem_map_of_mem hf)
    refine .supplied (by simp [payloadTags, htag]) ?_
    simp only [strings, List.mem_cons]
    exact Or.inr (Or.inr (Or.inr (List.mem_map_of_mem hf)))
  simp only [payload, payloadFields, List.forall_mem_append, List.forall_mem_cons,
    List.not_mem_nil, IsEmpty.forall_iff, implies_true, and_true]
  exact ⟨⟨.supplied (by decide) (by simp [strings]), .supplied (by decide) (by simp [strings]),
    .supplied (by decide) (by simp [strings]), .inert (by decide) (.natText _),
    .inert (by decide) (.generateTimestamp _)⟩, hbody⟩

theorem known_payload (h : m.Sendable) : ∀ f ∈ m.payload, m.Known f := by
  cases m with
  | built sender target msgSeqNum msgType body now => exact known_built h.tags
  | report r msgSeqNum now => exact known_report r msgSeqNum now
  | snapshot s msgSeqNum now => exact known_snapshot s msgSeqNum now
  | refresh r msgSeqNum clock => exact known_refresh r msgSeqNum clock

end Known

/-! ## Where the client ends a message -/

section Taken

open FixClientSession

variable {m : ServerMessage} {t : Message}

theorem soh_notMem_sum (m : ServerMessage) : soh ∉ m.sum := by
  have hnat (n : ℕ) : Wire.Inert (pad 3 (natText n)) := (Wire.Inert.natText n).pad 3
  have hint (n : ℤ) : Wire.Inert (pad 3 (intText n)) := (Wire.Inert.intText n).pad 3
  cases m with
  | built sender target msgSeqNum msgType body now => exact (hint _).soh
  | report r msgSeqNum now => exact (hnat _).soh
  | snapshot s msgSeqNum now => exact (hnat _).soh
  | refresh r msgSeqNum clock => exact (hnat _).soh

theorem head_spec (m : ServerMessage) :
    ∀ f ∈ m.head, Wire.Inert f.2 ∧ ¬['1', '0'] <:+ natText f.1 := by
  have h44 : Wire.Inert "FIX.4.4".toList := ⟨by decide, by decide⟩
  have h11 : Wire.Inert "FIXT.1.1".toList := ⟨by decide, by decide⟩
  have hbegin : Wire.Inert m.beginString := by
    cases m with
    | built _ _ _ _ _ _ => exact h44
    | report _ _ _ => exact h44
    | snapshot _ _ _ => exact h11
    | refresh _ _ _ => exact h11
  simp only [head, List.forall_mem_cons, List.not_mem_nil, IsEmpty.forall_iff, implies_true,
    and_true]
  exact ⟨⟨hbegin, by decide⟩, .natText _, by decide⟩

theorem soh_notMem_fields (h : m.Sendable) : ∀ f ∈ m.fields, soh ∉ f.2 := by
  intro f hf
  rcases List.mem_append.mp hf with hf | hf
  · exact (head_spec m f hf).1.soh
  · rcases List.mem_append.mp hf with hf | hf
    · rcases (known_payload h f hf).value with hsupplied | hinert
      · exact h.strings f.2 hsupplied
      · exact hinert.soh
    · obtain rfl := List.mem_singleton.mp hf
      exact soh_notMem_sum m

/-- Behind the head no field is a BodyLength. -/
theorem skippable_fields (h : m.Sendable) : ∀ f ∈ m.payload ++ [(10, m.sum)], Skippable f := by
  intro f hf
  refine ⟨?_, soh_notMem_fields h f (List.mem_append_right m.head hf)⟩
  rcases List.mem_append.mp hf with hf | hf
  · exact (payloadTags_spec f.1 (known_payload h f hf).tag).1
  · obtain rfl := List.mem_singleton.mp hf
    simp

/-- The text of the checksum's tag is in the field. -/
def Marked (f : ℕ × Message) : Prop := "10=".toList <:+: FixUtils.field f.1 f.2

instance : DecidablePred Marked := fun f =>
  inferInstanceAs (Decidable ("10=".toList <:+: FixUtils.field f.1 f.2))

/-- What the client takes for the message, and what is left of it then. -/
def taken (m : ServerMessage) : Message :=
  ofFields (m.fields.takeWhile (¬Marked ·) ++ (m.fields.dropWhile (¬Marked ·)).take 1)

def left (m : ServerMessage) : List (ℕ × Message) := (m.fields.dropWhile (¬Marked ·)).drop 1

theorem marked_trailer (m : ServerMessage) : Marked (10, m.sum) :=
  ⟨[], m.sum, by simp [FixUtils.field, show natText 10 = ['1', '0'] from rfl]⟩

theorem not_marked_head (m : ServerMessage) : ∀ f ∈ m.head, ¬Marked f := fun f hf =>
  Wire.not_isInfix_field (head_spec m f hf).1.equals (by decide) (head_spec m f hf).2

theorem exists_marked (m : ServerMessage) : ∃ before f, (∀ g ∈ before, ¬Marked g) ∧ Marked f ∧
    m.payload ++ [(10, m.sum)] = before ++ f :: m.left ∧
    m.taken = ofFields (m.head ++ before ++ [f]) := by
  have htake : m.fields.takeWhile (¬Marked ·) =
      m.head ++ (m.payload ++ [(10, m.sum)]).takeWhile (¬Marked ·) :=
    List.takeWhile_append_of_pos fun f hf => decide_eq_true (not_marked_head m f hf)
  have hdrop : m.fields.dropWhile (¬Marked ·) =
      (m.payload ++ [(10, m.sum)]).dropWhile (¬Marked ·) :=
    List.dropWhile_append_of_pos fun f hf => decide_eq_true (not_marked_head m f hf)
  cases hrest : (m.payload ++ [(10, m.sum)]).dropWhile (¬Marked ·) with
  | nil =>
      have hall := List.dropWhile_eq_nil_iff.mp hrest (10, m.sum) (by simp)
      exact absurd (marked_trailer m) (of_decide_eq_true hall)
  | cons f behind =>
      refine ⟨(m.payload ++ [(10, m.sum)]).takeWhile (¬Marked ·), f, ?_, ?_, ?_, ?_⟩
      · intro g hg
        simpa using List.mem_takeWhile_imp hg
      · have hhead := List.head_dropWhile_not (fun g => decide (¬Marked g))
          (show (m.payload ++ [(10, m.sum)]).dropWhile (¬Marked ·) ≠ [] by rw [hrest]; simp)
        simp only [hrest, List.head_cons] at hhead
        exact not_not.mp (of_decide_eq_false hhead)
      · rw [left, hdrop, hrest, List.drop_one, List.tail_cons, ← hrest,
          List.takeWhile_append_dropWhile]
      · rw [taken, htake, hdrop, hrest, List.take_succ_cons, List.take_zero]

/-- Between two messages there may be fields that the client has cut off. -/
theorem readRound_text (h : m.Sendable) {skipped : List (ℕ × Message)}
    (hskipped : ∀ g ∈ skipped, Skippable g) (t : Message) :
    readRound (ofFields skipped ++ (m.text ++ t)) = .next m.taken (ofFields m.left ++ t) := by
  obtain ⟨before, f, hbefore, hf, hfields, htaken⟩ := exists_marked m
  have hall : m.fields = (m.head ++ before) ++ f :: m.left := by
    rw [fields, hfields, List.append_assoc]
  have hmem : f ∈ m.payload ++ [(10, m.sum)] := by rw [hfields]; simp
  have hbegin : ∃ b ∈ beginStrings, b <+: m.text := by
    have hstarts (name : Message) : FixUtils.field 8 name ++ soh :: "9=".toList <+:
        ofFields ((8, name) :: (9, natText (ofFields m.payload).length) ::
          (m.payload ++ [(10, m.sum)])) := by
      rw [ofFields_cons, ofFields_cons]
      exact ⟨natText (ofFields m.payload).length ++ soh :: ofFields (m.payload ++ [(10, m.sum)]),
        by simp [FixUtils.field, show natText 9 = ['9'] from rfl]⟩
    rw [text_eq]
    cases m with
    | built _ _ _ _ _ _ => exact ⟨_, List.mem_cons_self, hstarts _⟩
    | report _ _ _ => exact ⟨_, List.mem_cons_self, hstarts _⟩
    | snapshot _ _ _ => exact ⟨_, List.mem_cons_of_mem _ List.mem_cons_self, hstarts _⟩
    | refresh _ _ _ => exact ⟨_, List.mem_cons_of_mem _ List.mem_cons_self, hstarts _⟩
  obtain ⟨b, hb, hstarts⟩ := hbegin
  rw [text_eq, hall] at hstarts ⊢
  rw [htaken]
  refine readRound_ofFields hskipped hb (hstarts.trans (List.prefix_append _ t)) ?_ hf
    (skippable_fields h f hmem).value
  intro g hg
  rcases List.mem_append.mp hg with hg | hg
  · exact not_marked_head m g hg
  · exact hbefore g hg

/-- The client takes something of each message, one after the other. -/
theorem feed_texts (messages : List ServerMessage) (h : ∀ m ∈ messages, m.Sendable)
    {skipped : List (ℕ × Message)} (hskipped : ∀ g ∈ skipped, Skippable g) :
    (readLoop.feed (ofFields skipped ++ (messages.map text).flatten)).1 =
      messages.map taken := by
  induction messages generalizing skipped with
  | nil =>
      have hwait : readRound (ofFields skipped ++ []) = .wait := by
        rw [readRound, findMessageStart_ofFields hskipped (by decide)]
        rfl
      rw [List.map_nil, List.flatten_nil, Framing.Loop.feed_wait hwait]
      rfl
  | cons m messages ih =>
      have hm := h m (by simp)
      have hround := readRound_text hm hskipped (messages.map text).flatten
      have hleft : ∀ g ∈ m.left, Skippable g := by
        obtain ⟨before, f, _, _, hfields, _⟩ := exists_marked m
        intro g hg
        refine skippable_fields hm g ?_
        rw [hfields]
        exact List.mem_append_right before (List.mem_cons_of_mem f hg)
      rw [List.map_cons, List.flatten_cons, Framing.Loop.feed_next hround,
        ih (fun m' hm' => h m' (List.mem_cons_of_mem m hm')) hleft]
      rfl

/-! ## The messages that are passed on whole -/

theorem taken_eq_text_iff (m : ServerMessage) : m.taken = m.text ↔ ∀ f ∈ m.payload, ¬Marked f := by
  obtain ⟨before, f, hbefore, hf, hfields, htaken⟩ := exists_marked m
  have htext : m.text = m.taken ++ ofFields m.left := by
    rw [text_eq, htaken, ← ofFields_append, fields, hfields]
    simp
  constructor
  · intro heq
    have hleft : m.left = [] := by
      by_contra hne
      obtain ⟨s, hs⟩ := exists_ofFields_eq hne
      rw [heq, hs] at htext
      exact absurd (congrArg List.length htext) (by simp)
    rw [hleft] at hfields
    obtain ⟨rfl, _⟩ := List.append_inj' hfields rfl
    exact hbefore
  · intro hpayload
    have hleft : m.left = [] := by
      by_contra hne
      obtain ⟨left, last, hlast⟩ := m.left.eq_nil_or_concat'.resolve_left hne
      rw [hlast, ← List.cons_append, ← List.append_assoc] at hfields
      obtain ⟨hbody, _⟩ := List.append_inj' hfields rfl
      exact hpayload f (by rw [hbody]; simp) hf
    rw [htext, hleft, ofFields_nil, List.append_nil]

/-- A string that is not empty is copied into a field. -/
theorem exists_field {s : Message} (hs : s ∈ m.strings) (hne : s ≠ []) :
    ∃ f ∈ m.payload, f.2 = s := by
  have hfield {payload : List (ℕ × Message)} {value : Message}
      (h : value ∈ payload.map Prod.snd) : ∃ f ∈ payload, f.2 = value := List.mem_map.mp h
  cases m with
  | built sender target msgSeqNum msgType body now =>
      simp only [strings, List.mem_cons] at hs
      apply hfield
      rcases hs with rfl | rfl | rfl | hs
      · simp [payload, payloadFields]
      · simp [payload, payloadFields]
      · simp [payload, payloadFields]
      · simp [payload, payloadFields, hs]
  | report r msgSeqNum now =>
      simp only [strings, List.mem_cons, List.not_mem_nil, or_false] at hs
      apply hfield
      rcases hs with rfl | rfl | rfl
      · simp [payload, ExecutionReportToBinaryConverter.body]
      · simp [payload, ExecutionReportToBinaryConverter.body]
      · have htext : r.text ≠ "" := fun h => hne (by simp [h])
        simp [payload, ExecutionReportToBinaryConverter.body, htext]
  | snapshot s msgSeqNum now =>
      obtain rfl := List.mem_singleton.mp hs
      have hid : s.mdReqID ≠ "" := fun h => hne (by simp [h])
      apply hfield
      simp [payload, MarketDataSnapshotFullRefreshToBinaryConverter.body, hid]
  | refresh r msgSeqNum clock =>
      obtain rfl := List.mem_singleton.mp hs
      have hid : r.mdReqID ≠ "" := fun h => hne (by simp [h])
      apply hfield
      simp [payload, MarketDataIncrementalRefreshToBinaryConverter.body, hid]

theorem not_marked_payload_iff (h : m.Sendable) : (∀ f ∈ m.payload, ¬Marked f) ↔
    ∀ s ∈ m.strings, ¬"10=".toList <:+: s := by
  have hvalue : ∀ f ∈ m.payload, Marked f ↔ "10=".toList <:+: f.2 := fun f hf =>
    Wire.isInfix_field_iff (p := ['1', '0']) (by decide)
      (payloadTags_spec f.1 (known_payload h f hf).tag).2
  constructor
  · intro hpayload s hs hinside
    obtain ⟨f, hf, rfl⟩ := exists_field hs fun hnil => absurd hinside (by rw [hnil]; decide)
    exact hpayload f hf ((hvalue f hf).mpr hinside)
  · intro hstrings f hf hmarked
    have hinside := (hvalue f hf).mp hmarked
    rcases (known_payload h f hf).value with hsupplied | hinert
    · exact hstrings f.2 hsupplied hinside
    · exact hinert.equals (hinside.subset (by decide))

/-- However the messages are cut into reads, they are passed on whole and in order
just when no string in them has the text of the checksum's tag in it. -/
theorem readAll_texts_iff (messages : List ServerMessage) (h : ∀ m ∈ messages, m.Sendable)
    (reads : List Message) (hreads : reads.flatten = (messages.map text).flatten) :
    (readLoop.readAll (some []) reads).1 = messages.map text ↔
      ∀ m ∈ messages, ∀ s ∈ m.strings, ¬"10=".toList <:+: s := by
  have hfeed := feed_texts messages h fun g hg => absurd hg (List.not_mem_nil (a := g))
  rw [ofFields_nil, List.nil_append, ← hreads, ← readAll_eq_feed] at hfeed
  rw [hfeed, List.map_inj_left]
  refine forall₂_congr fun m hm => ?_
  rw [taken_eq_text_iff, not_marked_payload_iff (h m hm)]

/-- The answer to a logon, and a report. -/
def Sample.messages : List ServerMessage :=
  [.built "BETA".toList "ALICE".toList 1 ['A'] [(98, ['0']), (108, ['3', '0'])] 0,
    .report { ExecutionReportToBinaryConverter.Sample.partialFill with clientOrderId := "A1" } 2 0]

theorem sendable_messages : ∀ m ∈ Sample.messages, m.Sendable := by
  simp only [Sample.messages, List.forall_mem_cons, List.not_mem_nil, IsEmpty.forall_iff,
    implies_true, and_true]
  exact ⟨⟨by decide, by decide⟩, by decide, by decide⟩

theorem readAll_texts_iff_sample :
    (readLoop.readAll (some []) [(Sample.messages.map text).flatten.take 10,
      (Sample.messages.map text).flatten.drop 10]).1 = Sample.messages.map text ↔
      ∀ m ∈ Sample.messages, ∀ s ∈ m.strings, ¬"10=".toList <:+: s :=
  readAll_texts_iff Sample.messages sendable_messages _ (by simp)

/-- A client order id with the text in it, in a single read. -/
theorem report_is_cut : ¬∀ messages : List ServerMessage, (∀ m ∈ messages, m.Sendable) →
    ∀ reads : List Message, reads.flatten = (messages.map text).flatten →
      (readLoop.readAll (some []) reads).1 = messages.map text := by
  intro h
  have hcut := h [.report ExecutionReportToBinaryConverter.Sample.partialFill 9 0] (by
    simp only [List.forall_mem_singleton]
    exact ⟨by decide, by decide⟩)
    [text (.report ExecutionReportToBinaryConverter.Sample.partialFill 9 0)] (by simp)
  revert hcut
  decide +kernel

end Taken

end ServerMessage

end BetaTrader
