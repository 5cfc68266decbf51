import BetaTrader.Client.BlotterModel
import BetaTrader.Client.InboundOrder
import BetaTrader.Client.OrderBook
import BetaTrader.Exchange.IncrementalWire

/-!
# The application follows the exchange

`App` passes what the session parses to the order book of the selected symbol and to
the blotter.  Whatever the exchange sends to a session, and however the bytes arrive,
its models end as if they had been told without a wire in between.
-/

namespace BetaTrader

open FixClientSession

namespace Client

/-! ## The callback -/

namespace OrderBook

/-- The maps are updated by the character of the action. -/
def updateParsedMap (map : Double → Option Quantity) (price : Double) (qty : Quantity)
    (action : Char) : Double → Option Quantity :=
  let map := if action = '0' ∨ action = '1' then Function.update map price (some qty)
    else if action = '2' then Function.update map price none else map
  if action ≠ '2' ∧ qty = 0 then Function.update map price none else map

/-- `updateLevel` as it is called with what has been parsed. -/
def updateParsed (book : OrderBook Double) (entry : ParsedIncrementalEntry) : OrderBook Double :=
  if entry.entryType = .bid then
    { book with mBids := updateParsedMap book.mBids entry.price entry.size entry.updateAction }
  else { book with mAsks := updateParsedMap book.mAsks entry.price entry.size entry.updateAction }

def handleParsed (book : OrderBook Double) (refresh : ParsedIncrementalRefresh) :
    OrderBook Double :=
  refresh.entries.foldl updateParsed book

open MarketDataIncrementalRefreshToBinaryConverter in
theorem updateParsed_received (book : OrderBook Double)
    (entry : MarketDataIncrementalEntry Double) : book.updateParsed (received entry) =
      book.updateLevel entry.entryType entry.price entry.size entry.updateAction := by
  obtain ⟨action, type, price, size, time, position⟩ := entry
  have hbid : type = .bid ∨ type ≠ .bid := em _
  cases action <;> rcases hbid with hbid | hbid <;>
    simp [updateParsed, updateParsedMap, updateLevel, updateMap, received, MDUpdateAction.toChar,
      hbid]

open MarketDataIncrementalRefreshToBinaryConverter in
theorem handleParsed_received (book : OrderBook Double)
    (refresh : MarketDataIncrementalRefresh Double) :
    book.handleParsed (receivedRefresh refresh) = book.handleIncremental refresh := by
  rw [handleParsed, receivedRefresh, List.foldl_map, handleIncremental]
  exact List.foldl_ext _ _ _ fun book entry _ => updateParsed_received book entry

end OrderBook

structure App where
  /-- The selected symbol, which is that of the order book. -/
  symbol : Message
  orderBook : OrderBook Double
  blotter : BlotterModel Double

namespace App

/-- The callback for messages; `unsetSymbol` is the name that is read for a symbol that
no entry has set. -/
def messageCallback (unsetSymbol : Message) (app : App) : ParsedFixMessage → App
  | .monostate => app
  | .executionReport report => { app with blotter := app.blotter.processExecution report }
  | .snapshot snapshot =>
      if snapshot.symbol.name ≠ app.symbol then app
      else { app with orderBook := app.orderBook.handleSnapshot snapshot }
  | .incremental refresh =>
      if refresh.symbol.elim unsetSymbol Instrument.name ≠ app.symbol then app
      else { app with orderBook := app.orderBook.handleParsed refresh }

/-- The application as if the exchange had told it itself. -/
def told (utcOffset : ℤ) (app : App) : ServerMessage → App
  | .built .. => app
  | .report report msgSeqNum _ => { app with
      blotter := app.blotter.processExecution
        (ExecutionReportToBinaryConverter.received report msgSeqNum utcOffset) }
  | .snapshot snapshot _ _ =>
      if snapshot.symbol.name ≠ app.symbol then app
      else { app with orderBook := app.orderBook.handleSnapshot snapshot }
  | .refresh refresh _ _ =>
      if refresh.symbol.name ≠ app.symbol then app
      else { app with orderBook := app.orderBook.handleIncremental refresh }

end App

end Client

/-! ## One message -/

namespace ServerMessage

def msgSeqNum : ServerMessage → UInt32
  | .built _ _ msgSeqNum _ _ _ => msgSeqNum
  | .report _ msgSeqNum _ => msgSeqNum
  | .snapshot _ msgSeqNum _ => msgSeqNum
  | .refresh _ msgSeqNum _ => msgSeqNum

/-- What the parser needs of the values: prices in ticks, a time that a calendar has,
a refresh with an entry; of the messages of the session these are the heartbeats. -/
def Readable : ServerMessage → Prop
  | .built _ _ _ msgType _ _ => msgType = ['0']
  | .report r _ _ => ExecutionReportToBinaryConverter.PricedInTicks r.lastPrice ∧
      (0 : ℤ) ≤ r.transactionTime ∧ r.transactionTime < FixUtils.endOfYears * 1000000000
  | .snapshot s _ _ => s.entries.length < 2 ^ 31 ∧
      ∀ entry ∈ s.entries, MarketDataSnapshotFullRefreshToBinaryConverter.OnWire entry
  | .refresh r _ _ => r.entries ≠ [] ∧ r.entries.length < 2 ^ 31 ∧
      ∀ entry ∈ r.entries, ExecutionReportToBinaryConverter.PricedInTicks entry.price

/-- The message reaches the callback whole. -/
structure Conveyable (m : ServerMessage) : Prop where
  sendable : m.Sendable
  unmarked : ∀ s ∈ m.strings, ¬"10=".toList <:+: s
  readable : m.Readable

/-- What the callback is passed. -/
def parsed (utcOffset : ℤ) : ServerMessage → List ParsedFixMessage
  | .built .. => []
  | .report r msgSeqNum _ =>
      [.executionReport (ExecutionReportToBinaryConverter.received r msgSeqNum utcOffset)]
  | .snapshot s _ _ => [.snapshot { s with
      targetSessionID := 0
      entries := s.entries.map MarketDataSnapshotFullRefreshToBinaryConverter.received }]
  | .refresh r _ _ =>
      [.incremental (MarketDataIncrementalRefreshToBinaryConverter.receivedRefresh r)]

variable {m : ServerMessage} {messages : List ServerMessage}

/-- The character of the type. -/
def msgType : ServerMessage → Message
  | .built _ _ _ msgType _ _ => msgType
  | .report .. => ['8']
  | .snapshot .. => ['W']
  | .refresh .. => ['X']

/-- The fields between the header and the checksum. -/
def body : ServerMessage → List (ℕ × Message)
  | .built _ _ _ _ body _ => body
  | .report r _ _ => ExecutionReportToBinaryConverter.body r
  | .snapshot s _ _ => MarketDataSnapshotFullRefreshToBinaryConverter.body s
  | .refresh r _ clock => MarketDataIncrementalRefreshToBinaryConverter.body r clock

theorem fields_eq (m : ServerMessage) : ∃ sender target time,
    m.fields = m.head ++ (35, m.msgType) :: (49, sender) :: (56, target) ::
      (34, Decimal.natText m.msgSeqNum.toNat) :: (52, time) :: (m.body ++ [(10, m.sum)]) := by
  cases m with
  | built _ _ _ _ _ _ => exact ⟨_, _, _, rfl⟩
  | report _ _ _ => exact ⟨_, _, _, rfl⟩
  | snapshot _ _ _ => exact ⟨_, _, _, rfl⟩
  | refresh _ _ _ => exact ⟨_, _, _, rfl⟩

/-- The type and the number stand in the header only. -/
theorem body_tags (h : m.Sendable) : ∀ f ∈ m.body, f.1 ≠ 34 ∧ f.1 ≠ 35 := by
  have hrequest (mdReqID : String) : ∀ f ∈ (if mdReqID = "" then []
      else [(Tag.mdReqID.number, mdReqID.toList)]), f.1 ≠ 34 ∧ f.1 ≠ 35 := by
    split_ifs <;> simp [Tag.number]
  cases m with
  | built sender target msgSeqNum msgType body now =>
      have hall : ∀ tag ∈ bodyTags, tag ≠ 34 ∧ tag ≠ 35 := by decide
      exact fun f hf => hall f.1 (h.tags f.1 (List.mem_map_of_mem hf))
  | report r msgSeqNum now =>
      rw [body, ExecutionReportToBinaryConverter.body]
      split_ifs <;> simp [Tag.number]
  | snapshot s msgSeqNum now =>
      have hentry (entry : MarketDataEntry Double) :
          ∀ f ∈ MarketDataSnapshotFullRefreshToBinaryConverter.entryFields entry,
            f.1 ≠ 34 ∧ f.1 ≠ 35 := by
        rw [MarketDataSnapshotFullRefreshToBinaryConverter.entryFields]
        split_ifs <;> simp
      rw [body, MarketDataSnapshotFullRefreshToBinaryConverter.body, List.forall_mem_append,
        List.forall_mem_append]
      refine ⟨⟨hrequest _, by simp [Tag.number]⟩, fun f hf => ?_⟩
      obtain ⟨entry, _, hf⟩ := List.mem_flatMap.mp hf
      exact hentry entry f hf
  | refresh r msgSeqNum clock =>
      rw [body, MarketDataIncrementalRefreshToBinaryConverter.body, List.forall_mem_append,
        List.forall_mem_append]
      refine ⟨⟨hrequest _, by simp⟩, fun f hf => ?_⟩
      obtain ⟨e, _, hf⟩ := List.mem_flatMap.mp hf
      simp only [MarketDataIncrementalRefreshToBinaryConverter.entryFields, List.mem_cons,
        List.not_mem_nil, or_false] at hf
      rcases hf with rfl | rfl | rfl | rfl | rfl | rfl <;> simp [Tag.number]

theorem mapOf_header (h : m.Sendable) :
    Wire.mapOf m.fields Tag.msgType.number = some m.msgType ∧
      Wire.mapOf m.fields Tag.msgSeqNum.number =
        some (Decimal.natText m.msgSeqNum.toNat) := by
  obtain ⟨sender, target, time, hfields⟩ := fields_eq m
  have hlate {tag : ℕ} (htag : tag = 34 ∨ tag = 35) : tag ∉ m.body.map Prod.fst := by
    intro hmem
    obtain ⟨f, hf, rfl⟩ := List.mem_map.mp hmem
    have hspec := body_tags h f hf
    omega
  constructor
  · rw [hfields]
    refine Wire.mapOf_append_cons _ ?_
    simpa using hlate (Or.inr rfl)
  · have hsplit : m.fields = (m.head ++ [(35, m.msgType), (49, sender), (56, target)]) ++
        (34, Decimal.natText m.msgSeqNum.toNat) :: (52, time) :: (m.body ++ [(10, m.sum)]) := by
      rw [hfields]
      simp
    rw [hsplit]
    refine Wire.mapOf_append_cons _ ?_
    simpa using hlate (Or.inl rfl)

theorem header_text (h : m.Sendable) :
    header m.text = some (m.msgSeqNum, m.msgType.head?) := by
  obtain ⟨htype, hnumber⟩ := mapOf_header h
  have hread : FixClientSession.fieldNumber (Wire.mapOf m.fields) Tag.msgSeqNum.number =
      some m.msgSeqNum := by
    have hlt : m.msgSeqNum.toNat < 2 ^ 64 := m.msgSeqNum.toNat_lt.trans (by decide)
    rw [FixClientSession.fieldNumber, hnumber]
    simp only [Decimal.stoul_natText hlt, Option.map_some, UInt32.ofNat_toNat]
  refine header_eq_some_iff.mpr ⟨_, splitToMap_text h, hread, ?_⟩
  rw [htype, Option.bind_some]

theorem parse_text (h : m.Conveyable) (utcOffset : ℤ) (hm : m.msgType ≠ ['0']) :
    ∃ parsed, FixMessageParser.parse utcOffset m.text = parsed ∧
      m.parsed utcOffset = [parsed] ∧ parsed ≠ .monostate ∧
      ∀ refresh, parsed = .incremental refresh → refresh.symbol ≠ none := by
  obtain ⟨hsendable, _, hreadable⟩ := h
  have hstrings := hsendable.strings
  cases m with
  | built sender target msgSeqNum msgType body now => exact absurd hreadable hm
  | report r msgSeqNum now =>
      obtain ⟨hprice, hfirst, hlast⟩ := hreadable
      have hclean : ExecutionReportToBinaryConverter.Clean r :=
        ⟨hstrings _ (by simp [strings]), hstrings _ (by simp [strings]),
          hstrings _ (by simp [strings])⟩
      exact ⟨_, ExecutionReportToBinaryConverter.parse_convert hclean hprice hfirst hlast utcOffset
        msgSeqNum now, rfl, by simp, by simp⟩
  | snapshot s msgSeqNum now =>
      obtain ⟨hlength, hentries⟩ := hreadable
      exact ⟨_, MarketDataSnapshotFullRefreshToBinaryConverter.parse_snapshot
        (hstrings _ (by simp [strings])) hentries hlength utcOffset, rfl, by simp, by simp⟩
  | refresh r msgSeqNum clock =>
      obtain ⟨hne, hlength, hentries⟩ := hreadable
      refine ⟨_, MarketDataIncrementalRefreshToBinaryConverter.parse_incremental
        (hstrings _ (by simp [strings])) hentries hlength utcOffset msgSeqNum clock, rfl, by simp,
        fun refresh heq => ?_⟩
      rw [← ParsedFixMessage.incremental.inj heq,
        MarketDataIncrementalRefreshToBinaryConverter.receivedRefresh, if_neg hne]
      simp

theorem handle_text (h : m.Conveyable) (ctx : ReadContext) {session : FixClientSession}
    (hle : session.seqStore.inSeqNum ≤ m.msgSeqNum) : ∃ effects,
    handleProtocolMessage ctx session m.text =
        some (session.setSeqNums (m.msgSeqNum + 1) session.seqStore.outSeqNum, effects) ∧
      ReadEffect.messages effects = m.parsed ctx.utcOffset := by
  have htype : ∃ c, m.msgType.head? = some c ∧ c ≠ '4' ∧ c ≠ '5' ∧
      (m.msgType = ['0'] ∧ c = '0' ∨ m.msgType ≠ ['0'] ∧ c ∉ protocolTypes) := by
    have hreadable := h.readable
    have happlication : '8' ∉ protocolTypes ∧ 'W' ∉ protocolTypes ∧ 'X' ∉ protocolTypes := by
      decide
    cases m with
    | built sender target msgSeqNum msgType body now =>
        have hzero : msgType = ['0'] := hreadable
        exact ⟨'0', by simp [ServerMessage.msgType, hzero], by decide, by decide,
          Or.inl ⟨hzero, rfl⟩⟩
    | report r msgSeqNum now =>
        exact ⟨'8', rfl, by decide, by decide, Or.inr ⟨by simp [msgType], happlication.1⟩⟩
    | snapshot s msgSeqNum now =>
        exact ⟨'W', rfl, by decide, by decide, Or.inr ⟨by simp [msgType], happlication.2.1⟩⟩
    | refresh r msgSeqNum clock =>
        exact ⟨'X', rfl, by decide, by decide, Or.inr ⟨by simp [msgType], happlication.2.2⟩⟩
  obtain ⟨c, hc, hreset, hlogout, hcase⟩ := htype
  have hheader := header_text h.sendable
  rw [hc] at hheader
  obtain ⟨map, hmap, hhandle⟩ := handleProtocolMessage_eq ctx session hheader
  rw [hhandle, if_neg (by simp [hreset, hlogout]), if_neg (UInt32.not_lt.mpr hle)]
  rcases hcase with ⟨hzero, rfl⟩ | ⟨happlication, hprotocol⟩
  · refine ⟨[], rfl, ?_⟩
    cases m with
    | built sender target msgSeqNum msgType body now => rfl
    | report r msgSeqNum now => simp [msgType] at hzero
    | snapshot s msgSeqNum now => simp [msgType] at hzero
    | refresh r msgSeqNum clock => simp [msgType] at hzero
  · obtain ⟨parsed, hparse, hparsed, hsome, hsymbol⟩ := parse_text h ctx.utcOffset happlication
    rw [InboundHistory.dispatch_application hprotocol, handleApplicationMessage, hparse, hparsed]
    cases parsed with
    | monostate => exact absurd rfl hsome
    | executionReport report => exact ⟨_, rfl, rfl⟩
    | snapshot snapshot => exact ⟨_, rfl, rfl⟩
    | incremental refresh =>
        obtain ⟨symbol, hsome⟩ := Option.ne_none_iff_exists'.mp (hsymbol refresh rfl)
        simp only [hsome, Option.elim_some, Option.bind_eq_bind, Option.bind_some]
        exact ⟨_, rfl, rfl⟩

end ServerMessage

/-! ## Reads -/

namespace FixClientSession

/-- One message after another, with all effects. -/
def handleAll : FixClientSession → List (ReadContext × Message) →
    Option (FixClientSession × List ReadEffect)
  | session, [] => some (session, [])
  | session, m :: ms => do
      let (session, effects) ← handleProtocolMessage m.1 session m.2
      let (session, effects') ← handleAll session ms
      return (session, effects ++ effects')

/-- One read after another; each round of a read has what it reads from outside. -/
def readStream : FixClientSession → Message → List ((ℕ → ReadContext) × Message) →
    Option (FixClientSession × Message × List ReadEffect)
  | session, readBuffer, [] => some (session, readBuffer, [])
  | session, readBuffer, (ctx, data) :: reads => do
      let (session, readBuffer, effects) ← doRead ctx session readBuffer data
      let (session, readBuffer, effects') ← readStream session readBuffer reads
      return (session, readBuffer, effects ++ effects')

variable {session : FixClientSession} {readBuffer : Message}

theorem handleAll_cons (m : ReadContext × Message) (ms : List (ReadContext × Message)) :
    session.handleAll (m :: ms) = (handleProtocolMessage m.1 session m.2).bind fun r =>
      (r.1.handleAll ms).map fun r' => (r'.1, r.2 ++ r'.2) := by
  rw [handleAll]
  dsimp only [Option.bind_eq_bind]
  refine Option.bind_congr fun r _ => ?_
  cases r.1.handleAll ms <;> rfl

theorem handleAll_append (ms ms' : List (ReadContext × Message)) :
    session.handleAll (ms ++ ms') = (session.handleAll ms).bind fun r =>
      (r.1.handleAll ms').map fun r' => (r'.1, r.2 ++ r'.2) := by
  induction ms generalizing session with
  | nil =>
      rw [List.nil_append, handleAll, Option.bind_some]
      cases session.handleAll ms' <;> rfl
  | cons m ms ih =>
      rw [List.cons_append, handleAll_cons, handleAll_cons, Option.bind_assoc]
      refine Option.bind_congr fun r _ => ?_
      rw [ih]
      cases r.1.handleAll ms with
      | none => rfl
      | some r' =>
          rw [Option.map_some, Option.bind_some, Option.bind_some, Option.map_map]
          simp only [Function.comp_def, List.append_assoc]

/-- The rounds of a read handle the messages that are taken from the buffer. -/
theorem readRounds_eq_handleAll (ctx : ℕ → ReadContext) (fuel i : ℕ)
    (session : FixClientSession) (readBuffer : Message) :
    readRounds ctx fuel i session readBuffer =
      (session.handleAll (messagesOf ctx fuel i readBuffer)).map fun r =>
        (r.1, (readLoop.drain fuel readBuffer).2.getD [], r.2) := by
  induction fuel generalizing i session readBuffer with
  | zero => rfl
  | succ fuel ih =>
      cases hround : readRound readBuffer with
      | wait =>
          have hdrain : readLoop.drain (fuel + 1) readBuffer = ([], some readBuffer) :=
            Framing.Loop.drain_wait hround
          rw [readRounds, messagesOf, hround, hdrain]
          rfl
      | stop => exact absurd hround (readRound_ne_stop readBuffer)
      | next message rest =>
          have hdrain : readLoop.drain (fuel + 1) readBuffer =
              (message :: (readLoop.drain fuel rest).1, (readLoop.drain fuel rest).2) :=
            Framing.Loop.drain_next hround
          have hmessages : messagesOf ctx (fuel + 1) i readBuffer =
              (ctx i, message) :: messagesOf ctx fuel (i + 1) rest := by
            rw [messagesOf, hdrain, List.zipIdx_cons, List.map_cons, messagesOf]
          rw [readRounds_next hround, hmessages, handleAll_cons, hdrain, Option.map_bind]
          refine Option.bind_congr fun r _ => ?_
          rw [ih, Option.map_map, Function.comp_apply, Option.map_map]
          rfl

theorem drain_isSome (fuel : ℕ) (readBuffer : Message) :
    (readLoop.drain fuel readBuffer).2.isSome := by
  induction fuel generalizing readBuffer with
  | zero => rfl
  | succ fuel ih =>
      cases hround : readRound readBuffer with
      | wait => rw [Framing.Loop.drain_wait hround]; rfl
      | stop => exact absurd hround (readRound_ne_stop readBuffer)
      | next message rest => rw [Framing.Loop.drain_next hround]; exact ih rest

/-- The reads handle the messages of the stream, whatever the cuts are. -/
theorem exists_readStream_eq (session : FixClientSession) (readBuffer : Message)
    (reads : List ((ℕ → ReadContext) × Message)) : ∃ ms left,
    readLoop.readAll (some readBuffer) (reads.map Prod.snd) = (ms.map Prod.snd, some left) ∧
      (∀ m ∈ ms, ∃ read ∈ reads, ∃ i, m.1 = read.1 i) ∧
      readStream session readBuffer reads =
        (session.handleAll ms).map fun r => (r.1, left, r.2) := by
  induction reads generalizing session readBuffer with
  | nil => exact ⟨[], readBuffer, rfl, by simp, rfl⟩
  | cons read reads ih =>
      obtain ⟨ctx, data⟩ := read
      have hsome := drain_isSome (readBuffer ++ data).length (readBuffer ++ data)
      obtain ⟨rest, hrest⟩ := Option.isSome_iff_exists.mp hsome
      have hread : readLoop.read (some readBuffer) data =
          ((messagesOf ctx (readBuffer ++ data).length 0 (readBuffer ++ data)).map Prod.snd,
            some rest) := by
        rw [Framing.Loop.read, Framing.Loop.feed, messagesOf, List.map_map, Prod.ext_iff]
        exact ⟨(List.zipIdx_map_fst 0 _).symm, hrest⟩
      have hmember : ∀ m ∈ messagesOf ctx (readBuffer ++ data).length 0 (readBuffer ++ data),
          ∃ read ∈ (ctx, data) :: reads, ∃ i, m.1 = read.1 i := by
        intro m hm
        obtain ⟨e, _, rfl⟩ := List.mem_map.mp hm
        exact ⟨_, List.mem_cons_self, e.2, rfl⟩
      -- where the read throws, the reads behind it are of no account
      obtain ⟨ms, left, hms, hcontexts, hstream⟩ := ih (((session.handleAll (messagesOf ctx
        (readBuffer ++ data).length 0 (readBuffer ++ data))).map Prod.fst).getD session) rest
      refine ⟨messagesOf ctx (readBuffer ++ data).length 0 (readBuffer ++ data) ++ ms, left,
        ?_, ?_, ?_⟩
      · rw [List.map_cons, Framing.Loop.readAll, hread, hms, List.map_append]
      · intro m hm
        rcases List.mem_append.mp hm with hm | hm
        · exact hmember m hm
        · obtain ⟨read, hread, hctx⟩ := hcontexts m hm
          exact ⟨read, List.mem_cons_of_mem _ hread, hctx⟩
      · rw [readStream, doRead, readRounds_eq_handleAll, handleAll_append, hrest]
        cases hhandle : session.handleAll
            (messagesOf ctx (readBuffer ++ data).length 0 (readBuffer ++ data)) with
        | none => rfl
        | some r =>
            rw [hhandle, Option.map_some, Option.getD_some] at hstream
            simp only [Option.map_some, Option.getD_some, Option.bind_eq_bind, Option.bind_some,
              hstream]
            cases r.1.handleAll ms <;> rfl

end FixClientSession

/-! ## The stream of a session -/

namespace ServerMessage

variable {m : ServerMessage} {messages : List ServerMessage} {session : FixClientSession}

theorem readRound_whole (h : m.Conveyable) (t : Message) :
    readRound (m.text ++ t) = .next m.text t := by
  have hnone : ∀ g ∈ ([] : List (ℕ × Message)), Skippable g := by simp
  have hround := readRound_text h.sendable hnone t
  have htaken : m.taken = m.text :=
    (taken_eq_text_iff m).mpr ((not_marked_payload_iff h.sendable).mpr h.unmarked)
  obtain ⟨before, f, _, _, hfields, hsplit⟩ := exists_marked m
  have hleft : OutboundMessageBuilder.ofFields m.left = [] := by
    have htext : m.text = m.taken ++ OutboundMessageBuilder.ofFields m.left := by
      rw [text_eq, hsplit, ← OutboundMessageBuilder.ofFields_append, fields, hfields]
      simp
    rw [htaken] at htext
    exact List.self_eq_append_right.mp htext
  rwa [OutboundMessageBuilder.ofFields_nil, List.nil_append, htaken, hleft,
    List.nil_append] at hround

theorem feed_whole (h : ∀ m ∈ messages, m.Conveyable) :
    readLoop.feed (messages.map text).flatten = (messages.map text, some []) := by
  induction messages with
  | nil => exact Framing.Loop.feed_nil
  | cons m messages ih =>
      rw [List.map_cons, List.flatten_cons,
        Framing.Loop.feed_next (readRound_whole (h m List.mem_cons_self) _),
        ih fun m' hm' => h m' (List.mem_cons_of_mem m hm')]

/-- The session passes on all that the messages say, and nothing else. -/
theorem exists_handleAll {utcOffset : ℤ} (h : ∀ m ∈ messages, m.Conveyable)
    (hnumbers : (messages.map msgSeqNum).Pairwise (· < ·))
    (hfirst : ∀ m ∈ messages, session.seqStore.inSeqNum ≤ m.msgSeqNum)
    {ms : List (ReadContext × Message)} (hms : ms.map Prod.snd = messages.map text)
    (hoffset : ∀ m ∈ ms, m.1.utcOffset = utcOffset) :
    ∃ r, session.handleAll ms = some r ∧ r.1.state = session.state ∧
      ReadEffect.messages r.2 = messages.flatMap (parsed utcOffset) := by
  induction messages generalizing session ms with
  | nil =>
      obtain rfl := List.map_eq_nil_iff.mp hms
      exact ⟨(session, []), rfl, rfl, rfl⟩
  | cons m messages ih =>
      obtain ⟨⟨ctx, text⟩, ms, rfl⟩ := List.exists_cons_of_ne_nil
        (show ms ≠ [] by rintro rfl; simp at hms)
      rw [List.map_cons, List.map_cons, List.cons.injEq] at hms
      obtain ⟨rfl, hms⟩ := hms
      obtain ⟨hlater, hnumbers⟩ := List.pairwise_cons.mp hnumbers
      obtain ⟨effects, hhandle, hmessages⟩ :=
        handle_text (h m List.mem_cons_self) ctx (hfirst m List.mem_cons_self)
      have hnext : ∀ m' ∈ messages, (session.setSeqNums (m.msgSeqNum + 1)
          session.seqStore.outSeqNum).seqStore.inSeqNum ≤ m'.msgSeqNum := by
        intro m' hm'
        have hlt := UInt32.lt_iff_toNat_lt.mp (hlater _ (List.mem_map_of_mem hm'))
        have hbound := m'.msgSeqNum.toNat_lt
        have hone : (1 : UInt32).toNat = 1 := rfl
        refine UInt32.le_iff_toNat_le.mpr ?_
        rw [setSeqNums, UInt32.toNat_add, hone]
        omega
      obtain ⟨r, hr, hstate, hrest⟩ := ih (fun m' hm' => h m' (List.mem_cons_of_mem m hm'))
        hnumbers hnext hms fun m' hm' => hoffset m' (List.mem_cons_of_mem _ hm')
      have hctx : ctx.utcOffset = utcOffset := hoffset (ctx, m.text) List.mem_cons_self
      refine ⟨(r.1, effects ++ r.2), ?_, hstate, ?_⟩
      · rw [handleAll_cons, hhandle, Option.bind_some, hr, Option.map_some]
      · rw [List.flatMap_cons, ← hctx, ← hmessages, hctx, ← hrest]
        simp only [ReadEffect.messages, List.filterMap_append]

end ServerMessage

namespace Client.App

open ServerMessage

variable {messages : List ServerMessage}

/-- A message makes of the application what it would be told. -/
theorem foldl_parsed {m : ServerMessage} (h : m.Readable) (unsetSymbol : Message)
    (utcOffset : ℤ) (app : App) :
    (m.parsed utcOffset).foldl (messageCallback unsetSymbol) app = app.told utcOffset m := by
  cases m with
  | built sender target msgSeqNum msgType body now => rfl
  | report r msgSeqNum now => rfl
  | snapshot s msgSeqNum now =>
      rw [parsed, List.foldl_cons, List.foldl_nil, messageCallback, told]
      simp only [OrderBook.handleSnapshot, BetaTrader.OrderBook.foldl_setLevel_received]
  | refresh r msgSeqNum clock =>
      obtain ⟨hne, _⟩ := h
      rw [parsed, List.foldl_cons, List.foldl_nil, messageCallback, told,
        OrderBook.handleParsed_received]
      simp only [MarketDataIncrementalRefreshToBinaryConverter.receivedRefresh, if_neg hne,
        Option.elim_some]

theorem foldl_flatMap_parsed (h : ∀ m ∈ messages, m.Readable) (unsetSymbol : Message)
    (utcOffset : ℤ) (app : App) :
    (messages.flatMap (parsed utcOffset)).foldl (messageCallback unsetSymbol) app =
      messages.foldl (told utcOffset) app := by
  rw [List.foldl_flatMap]
  exact List.foldl_ext _ _ _ fun app m hm => foldl_parsed (h m hm) unsetSymbol utcOffset app

/-- What the exchange sends to a session in the order of its numbers reaches the models
of the application, however it is cut into reads. -/
theorem follows_exchange {session : FixClientSession} {utcOffset : ℤ}
    (h : ∀ m ∈ messages, m.Conveyable)
    (hnumbers : (messages.map msgSeqNum).Pairwise (· < ·))
    (hfirst : ∀ m ∈ messages, session.seqStore.inSeqNum ≤ m.msgSeqNum)
    {reads : List ((ℕ → ReadContext) × Message)}
    (hreads : (reads.map Prod.snd).flatten = (messages.map text).flatten)
    (hoffset : ∀ read ∈ reads, ∀ i, (read.1 i).utcOffset = utcOffset)
    (unsetSymbol : Message) (app : App) :
    ∃ session' effects, readStream session [] reads = some (session', [], effects) ∧
      session'.state = session.state ∧
      (ReadEffect.messages effects).foldl (messageCallback unsetSymbol) app =
        messages.foldl (told utcOffset) app := by
  obtain ⟨ms, left, hall, hcontexts, hstream⟩ := exists_readStream_eq session [] reads
  rw [readAll_eq_feed, hreads, feed_whole h, Prod.mk.injEq, Option.some.injEq] at hall
  obtain ⟨hms, rfl⟩ := hall
  have hms' : ∀ m ∈ ms, m.1.utcOffset = utcOffset := by
    intro m hm
    obtain ⟨read, hread, i, hctx⟩ := hcontexts m hm
    rw [hctx]
    exact hoffset read hread i
  obtain ⟨r, hr, hstate, hmessages⟩ := exists_handleAll h hnumbers hfirst hms.symm hms'
  rw [hr, Option.map_some] at hstream
  refine ⟨r.1, r.2, hstream, hstate, ?_⟩
  rw [hmessages]
  exact foldl_flatMap_parsed (fun m hm => (h m hm).readable) unsetSymbol utcOffset app

namespace Sample

/-- A report, a refresh and a heartbeat. -/
def sent : List ServerMessage :=
  [.report { ExecutionReportToBinaryConverter.Sample.partialFill with clientOrderId := "A1" } 2 0,
    .refresh ⟨some 7, "268=1", .eurusd,
      [⟨.new, .bid, .finite ((12345 : ℤ) / 10 ^ 4), 5, 0, 0⟩]⟩ 3 fun _ => 0,
    .built "BETA".toList "ALICE".toList 4 ['0'] [(112, "T1".toList)] 0]

theorem conveyable_sent : ∀ m ∈ sent, m.Conveyable := by
  simp only [sent, List.forall_mem_cons, List.not_mem_nil, IsEmpty.forall_iff, implies_true,
    and_true]
  refine ⟨⟨⟨by decide, by decide⟩, by decide, ⟨-12345, rfl, by decide +kernel⟩, by decide,
    by decide⟩, ⟨⟨by decide, by decide⟩, by decide, by simp, by decide, ?_⟩,
    ⟨by decide, by decide⟩, by decide, rfl⟩
  simp only [List.mem_singleton, forall_eq]
  exact ⟨12345, rfl, by decide +kernel⟩

def context : ReadContext := ⟨0, 0, none⟩

def app : App := ⟨"EURUSD".toList, ⟨fun _ => none, fun _ => none⟩, BlotterModel.empty⟩

end Sample

theorem follows_exchange_sample : ∃ session' effects,
    readStream InboundHistory.loggedOn [] [(fun _ => Sample.context,
        (Sample.sent.map text).flatten.take 300),
      (fun _ => Sample.context, (Sample.sent.map text).flatten.drop 300)] =
        some (session', [], effects) ∧
      session'.state = InboundHistory.loggedOn.state ∧
      (ReadEffect.messages effects).foldl (messageCallback []) Sample.app =
        Sample.sent.foldl (told 0) Sample.app :=
  follows_exchange Sample.conveyable_sent (by decide) (by decide) (by simp)
    (by simp [Sample.context]) [] Sample.app

end Client.App

end BetaTrader
