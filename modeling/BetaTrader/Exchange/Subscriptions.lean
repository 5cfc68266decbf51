import BetaTrader.Exchange.MarketDataRequests
import BetaTrader.Exchange.SessionSpec

/-!
# Subscriptions to market data

Which sessions get the refreshes of a symbol is kept by the publisher, and follows
from the requests of the sessions and from their going.  Beside the server and the
publisher stands what each connection has asked for last.
-/

namespace BetaTrader

namespace SessionEffect

/-- The request among the effects of a session, if the converter accepts it. -/
def marketDataRequest (effects : List SessionEffect) : Option MarketDataRequest :=
  effects.findSome? fun
    | .handleMarketDataRequest fixMessage => BinaryToMarketDataRequestConverter.convert fixMessage
    | _ => none

end SessionEffect

/-- The sessions, their request ids and the publisher. -/
structure MarketDataFeed where
  server : FixServer
  publisher : MarketDataPublisher
  /-- `mMarketDataReqIdMap` of each session. -/
  marketDataReqIdMap : ConnectionID → Instrument → Option String
  /-- The type of the last request of the connection that named the symbol. -/
  lastRequest : ConnectionID → Instrument → Option Char

structure FeedEvent where
  event : ServerEvent
  /-- What the order books have for a snapshot. -/
  entriesOf : Instrument → List (MarketDataEntry Double)

namespace MarketDataRequest

/-- The first branch of `handleMarketDataRequest`, for two of the three types. -/
def Subscribes (request : MarketDataRequest) : Prop :=
  request.subscriptionRequestType = some subscriptionRequestTypeSnapshot ∨
    request.subscriptionRequestType = some subscriptionRequestTypeSnapshotAndUpdates

def Unsubscribes (request : MarketDataRequest) : Prop :=
  request.subscriptionRequestType = some subscriptionRequestTypeUnsubscribe

instance (request : MarketDataRequest) : Decidable request.Subscribes :=
  inferInstanceAs (Decidable (_ ∨ _))

instance (request : MarketDataRequest) : Decidable request.Unsubscribes :=
  inferInstanceAs (Decidable (_ = _))

end MarketDataRequest

namespace MarketDataFeed

/-- A new process. -/
def start (seqRepo : Option SequenceRepository) : MarketDataFeed where
  server := .start seqRepo
  publisher := .empty
  marketDataReqIdMap := fun _ _ => none
  lastRequest := fun _ _ => none

section Handlers

variable (feed : MarketDataFeed) (sessionId : ConnectionID) (symbol : Instrument)
  (entriesOf : Instrument → List (MarketDataEntry Double)) (request : MarketDataRequest)

/-- `onMarketDataSnapshotFullRefresh` and `sendMarketDataSnapshotFullRefresh`. -/
def sendSnapshot (snapshot : MarketDataSnapshotFullRefresh Double) :
    MarketDataFeed × List (MarketDataSnapshotFullRefresh Double) :=
  let sessionId := snapshot.targetSessionID
  if sessionId = 0 ∨ feed.server.sessions sessionId = none then (feed, [])
  else
    let mdReqID := (feed.marketDataReqIdMap sessionId snapshot.symbol).getD snapshot.mdReqID
    ({ feed with server := feed.server.sendTo sessionId }, [{ snapshot with mdReqID := mdReqID }])

/-- A new subscription comes with a snapshot of the book. -/
def subscribeToMarketData : MarketDataFeed × List (MarketDataSnapshotFullRefresh Double) :=
  let id : SessionID := sessionId.toUInt64
  let feed := { feed with publisher := feed.publisher.addSubscription symbol id }
  match MarketDataPublisher.publishSnapshot {
      targetSessionID := id.toUInt32
      mdReqID := ""
      symbol := symbol
      entries := entriesOf symbol } with
  | [] => (feed, [])
  | snapshot :: _ => feed.sendSnapshot snapshot

def unsubscribeFromMarketData : MarketDataFeed :=
  { feed with publisher := feed.publisher.removeSubscription symbol sessionId.toUInt64 }

def setMarketDataReqId (mdReqID : Option String) : MarketDataFeed :=
  { feed with
    marketDataReqIdMap := Function.update feed.marketDataReqIdMap sessionId
      (Function.update (feed.marketDataReqIdMap sessionId) symbol mdReqID) }

/-- Only the first symbol of a request is looked at. -/
def handleMarketDataRequest : MarketDataFeed × List (MarketDataSnapshotFullRefresh Double) :=
  match request.symbols with
  | [] => (feed, [])
  | targetSymbol :: _ =>
      if request.Subscribes then
        (feed.setMarketDataReqId sessionId targetSymbol
          (some request.mdReqID)).subscribeToMarketData sessionId targetSymbol entriesOf
      else if request.Unsubscribes then
        ((feed.setMarketDataReqId sessionId targetSymbol none).unsubscribeFromMarketData
          sessionId targetSymbol, [])
      else (feed, [])

/-- Every symbol of the request has been named. -/
def noteRequest : MarketDataFeed :=
  if request.Subscribes ∨ request.Unsubscribes then
    { feed with
      lastRequest := Function.update feed.lastRequest sessionId fun symbol =>
        if symbol ∈ request.symbols then request.subscriptionRequestType
        else feed.lastRequest sessionId symbol }
  else feed

end Handlers

/-- The request that a session handles in a step. -/
def requestOf (feed : MarketDataFeed) (event : ServerEvent) :
    Option (ConnectionID × MarketDataRequest) :=
  match event with
  | .frame sessionId ctx fixMessage =>
      if feed.server.running then
        (SessionEffect.marketDataRequest
          (feed.server.receive sessionId ctx fixMessage).2).map fun request => (sessionId, request)
      else none
  | _ => none

/-- What becomes of the server, and of the parts that come and go with a session. -/
def serverStep (feed : MarketDataFeed) (event : ServerEvent) : MarketDataFeed :=
  if feed.server.running then
    let sessionId := feed.server.nextSessionId
    match event with
    | .accept =>
        { feed with
          server := feed.server.step .accept
          marketDataReqIdMap := Function.update feed.marketDataReqIdMap sessionId fun _ => none
          lastRequest := Function.update feed.lastRequest sessionId fun _ => none }
    | .disconnect sessionId =>
        { feed with
          server := feed.server.step (.disconnect sessionId)
          publisher := feed.publisher.removeSession sessionId.toUInt64 }
    | event => { feed with server := feed.server.step event }
  else feed

/-- A step, and the snapshots that are sent in it. -/
def step (feed : MarketDataFeed) (e : FeedEvent) :
    MarketDataFeed × List (MarketDataSnapshotFullRefresh Double) :=
  match feed.requestOf e.event with
  | none => (feed.serverStep e.event, [])
  | some (sessionId, request) =>
      ((feed.serverStep e.event).noteRequest sessionId request).handleMarketDataRequest
        sessionId e.entriesOf request

def next (feed : MarketDataFeed) (e : FeedEvent) : MarketDataFeed := (feed.step e).1

/-- The connection is registered, and its socket is open. -/
def Connected (feed : MarketDataFeed) (sessionId : ConnectionID) : Prop :=
  (feed.server.sessions sessionId).any Connection.isOpen = true

instance (feed : MarketDataFeed) (sessionId : ConnectionID) :
    Decidable (feed.Connected sessionId) := inferInstanceAs (Decidable (_ = true))

/-- Who gets a refresh that is published now: `onMarketDataIncrementalRefresh` takes
each of the copies to its session. -/
def receivers (feed : MarketDataFeed) (refresh : MarketDataIncrementalRefresh Double) :
    List ConnectionID :=
  ((feed.publisher.publishIncremental refresh).filterMap fun copy => copy.targetSessionID).filter
    fun sessionId => sessionId ≠ 0 ∧ feed.Connected sessionId

/-! ## What the requests ask for -/

/-- A refresh goes to the connected sessions whose last request for the symbol asked
for updates. -/
def UpdatesFollow (feed : MarketDataFeed) : Prop :=
  ∀ refresh sessionId, sessionId ∈ feed.receivers refresh ↔
    feed.Connected sessionId ∧
      feed.lastRequest sessionId refresh.symbol = some subscriptionRequestTypeSnapshotAndUpdates

/-- The snapshots are for the session, one for each symbol that the request names. -/
def OnePerSymbol (sessionId : ConnectionID) (request : MarketDataRequest)
    (snapshots : List (MarketDataSnapshotFullRefresh Double)) : Prop :=
  ∀ target symbol,
    (snapshots.map fun snapshot => (snapshot.targetSessionID, snapshot.symbol)).count
      (target, symbol) = if target = sessionId ∧ symbol ∈ request.symbols then 1 else 0

/-- A connected session that asks for snapshots is sent them. -/
def SnapshotsFollow (feed : MarketDataFeed) (e : FeedEvent) : Prop :=
  ∀ sessionId request, feed.requestOf e.event = some (sessionId, request) →
    feed.Connected sessionId → request.Subscribes →
      OnePerSymbol sessionId request (feed.step e).2

/-- In every state of the run and in each of its steps. -/
def FollowsRequests (feed : MarketDataFeed) (events : List FeedEvent) : Prop :=
  TotalRun.Always next UpdatesFollow feed events ∧
    TotalRun.Meets next SnapshotsFollow feed events

/-- The publisher has the session in its list for the symbol. -/
def Subscribed (feed : MarketDataFeed) (sessionId : ConnectionID) (symbol : Instrument) : Prop :=
  sessionId.toUInt64 ∈ feed.publisher.subscriptions symbol

instance (feed : MarketDataFeed) (sessionId : ConnectionID) (symbol : Instrument) :
    Decidable (feed.Subscribed sessionId symbol) := inferInstanceAs (Decidable (_ ∈ _))

/-- A request for a snapshot alone names no symbol, one with updates names a single
symbol, one that unsubscribes names no other symbol that the session has subscribed
to. -/
def NamesOne (feed : MarketDataFeed) (sessionId : ConnectionID) (request : MarketDataRequest) :
    Prop :=
  (request.subscriptionRequestType = some subscriptionRequestTypeSnapshot →
    request.symbols = []) ∧
  (request.subscriptionRequestType = some subscriptionRequestTypeSnapshotAndUpdates →
    ∀ symbol ∈ request.symbols, request.symbols.head? = some symbol ∧ sessionId ≠ 0) ∧
  (request.Unsubscribes → ∀ symbol ∈ request.symbols,
    request.symbols.head? = some symbol ∨ sessionId = 0 ∨ ¬feed.Subscribed sessionId symbol)

/-- The requests of connected sessions are such, and the number of a new connection
is not that of a subscription. -/
def Answerable (feed : MarketDataFeed) (e : FeedEvent) : Prop :=
  (∀ sessionId request, feed.requestOf e.event = some (sessionId, request) →
    feed.Connected sessionId → feed.NamesOne sessionId request) ∧
  (e.event = .accept → feed.server.running = true → ∀ symbol,
    feed.server.nextSessionId = 0 ∨ ¬feed.Subscribed feed.server.nextSessionId symbol)

/-! ## What the steps do -/

/-- The publisher is told numbers of connections, widened to 64 bits. -/
def Widened (feed : MarketDataFeed) : Prop :=
  ∀ symbol, ∀ id ∈ feed.publisher.subscriptions symbol, id.toUInt32.toUInt64 = id

/-- The session gets the refreshes of the symbol if and only if it should. -/
def Answered (feed : MarketDataFeed) (sessionId : ConnectionID) (symbol : Instrument) : Prop :=
  (sessionId ≠ 0 ∧ feed.Subscribed sessionId symbol) ↔
    feed.lastRequest sessionId symbol = some subscriptionRequestTypeSnapshotAndUpdates

variable {feed feed' : MarketDataFeed} {sessionId other : ConnectionID}
  {request : MarketDataRequest} {event : ServerEvent} {e : FeedEvent}
  {entriesOf : Instrument → List (MarketDataEntry Double)}

theorem mem_receivers (hwide : feed.Widened) {refresh : MarketDataIncrementalRefresh Double} :
    sessionId ∈ feed.receivers refresh ↔ feed.Connected sessionId ∧ sessionId ≠ 0 ∧
      feed.Subscribed sessionId refresh.symbol := by
  have hnarrow :
      (∃ id ∈ feed.publisher.subscriptions refresh.symbol, id.toUInt32 = sessionId) ↔
        feed.Subscribed sessionId refresh.symbol := by
    constructor
    · rintro ⟨id, hmem, rfl⟩
      rw [Subscribed, hwide refresh.symbol id hmem]
      exact hmem
    · exact fun hmem => ⟨sessionId.toUInt64, hmem, UInt32.toUInt32_toUInt64 sessionId⟩
  rw [← hnarrow]
  simp only [receivers, MarketDataPublisher.publishIncremental, List.mem_filter,
    List.mem_filterMap, List.mem_map, decide_eq_true_eq]
  constructor
  · rintro ⟨⟨copy, ⟨id, hmem, rfl⟩, hid⟩, hne, hconnected⟩
    exact ⟨hconnected, hne, id, hmem, Option.some.inj hid⟩
  · rintro ⟨hconnected, hne, id, hmem, rfl⟩
    exact ⟨⟨_, ⟨id, hmem, rfl⟩, rfl⟩, hne, hconnected⟩

theorem updatesFollow_iff (hwide : feed.Widened) :
    feed.UpdatesFollow ↔ ∀ sessionId, feed.Connected sessionId →
      ∀ symbol, feed.Answered sessionId symbol := by
  constructor
  · intro h sessionId hconnected symbol
    have hiff := h { targetSessionID := none, mdReqID := "", symbol := symbol, entries := [] }
      sessionId
    simp only [mem_receivers hwide, hconnected, true_and] at hiff
    exact hiff
  · intro h refresh sessionId
    rw [mem_receivers hwide]
    exact and_congr_right fun hconnected => h sessionId hconnected refresh.symbol

/-- The sessions are as before, and so is what they have asked for. -/
structure SameSessions (feed feed' : MarketDataFeed) : Prop where
  sessions : feed'.server.sessions = feed.server.sessions
  lastRequest : feed'.lastRequest = feed.lastRequest

theorem SameSessions.connected (h : SameSessions feed feed') :
    feed'.Connected sessionId ↔ feed.Connected sessionId := by
  rw [Connected, h.sessions, Connected]

/-! ### Requests -/

theorem sendSnapshot_same (feed : MarketDataFeed)
    (snapshot : MarketDataSnapshotFullRefresh Double) :
    SameSessions feed (feed.sendSnapshot snapshot).1 ∧
      (feed.sendSnapshot snapshot).1.publisher = feed.publisher := by
  unfold sendSnapshot
  dsimp only
  split_ifs
  · exact ⟨⟨rfl, rfl⟩, rfl⟩
  · refine ⟨⟨?_, rfl⟩, rfl⟩
    dsimp only
    unfold FixServer.sendTo
    split <;> rfl

theorem subscribeToMarketData_same (feed : MarketDataFeed) (sessionId : ConnectionID)
    (symbol : Instrument) (entriesOf : Instrument → List (MarketDataEntry Double)) :
    SameSessions feed (feed.subscribeToMarketData sessionId symbol entriesOf).1 ∧
      (feed.subscribeToMarketData sessionId symbol entriesOf).1.publisher =
        feed.publisher.addSubscription symbol sessionId.toUInt64 := by
  unfold subscribeToMarketData
  dsimp only
  split
  · exact ⟨⟨rfl, rfl⟩, rfl⟩
  · next snapshot _ _ =>
      obtain ⟨hsame, hpublisher⟩ := sendSnapshot_same { feed with
        publisher := feed.publisher.addSubscription symbol sessionId.toUInt64 } snapshot
      exact ⟨⟨hsame.sessions, hsame.lastRequest⟩, hpublisher⟩

/-- The one snapshot that a subscription is answered with. -/
theorem subscribeToMarketData_sends (hconnected : feed.Connected sessionId)
    (symbol : Instrument) :
    (feed.subscribeToMarketData sessionId symbol entriesOf).2.map
      (fun snapshot => (snapshot.targetSessionID, snapshot.symbol)) =
        if sessionId = 0 then [] else [(sessionId, symbol)] := by
  have hregistered : feed.server.sessions sessionId ≠ none := by
    intro hnone
    simp [Connected, hnone] at hconnected
  by_cases hzero : sessionId = 0
  · simp [subscribeToMarketData, MarketDataPublisher.publishSnapshot, hzero]
  · simp [subscribeToMarketData, MarketDataPublisher.publishSnapshot, sendSnapshot, hzero,
      hregistered]

theorem handleMarketDataRequest_same :
    SameSessions feed (feed.handleMarketDataRequest sessionId entriesOf request).1 := by
  unfold handleMarketDataRequest
  split
  · exact ⟨rfl, rfl⟩
  · next targetSymbol _ _ =>
      split_ifs
      · obtain ⟨hsame, _⟩ := subscribeToMarketData_same (feed.setMarketDataReqId sessionId
          targetSymbol (some request.mdReqID)) sessionId targetSymbol entriesOf
        exact ⟨hsame.sessions, hsame.lastRequest⟩
      · exact ⟨rfl, rfl⟩
      · exact ⟨rfl, rfl⟩

/-- A session subscribes to the first symbol alone. -/
theorem subscribed_of_subscribes {first : Instrument} {rest : List Instrument}
    (hsymbols : request.symbols = first :: rest) (h : request.Subscribes) (symbol : Instrument) :
    (feed.handleMarketDataRequest sessionId entriesOf request).1.Subscribed other symbol ↔
      feed.Subscribed other symbol ∨ symbol = first ∧ other = sessionId := by
  have hid : other.toUInt64 = sessionId.toUInt64 ↔ other = sessionId := UInt32.toUInt64_inj
  simp only [handleMarketDataRequest, hsymbols, h, if_true, Subscribed, subscribeToMarketData_same,
    MarketDataPublisher.mem_addSubscription, hid]
  rfl

/-- And unsubscribes from it alone. -/
theorem subscribed_of_unsubscribes {first : Instrument} {rest : List Instrument}
    (hsymbols : request.symbols = first :: rest) (h : request.Unsubscribes)
    (symbol : Instrument) :
    (feed.handleMarketDataRequest sessionId entriesOf request).1.Subscribed other symbol ↔
      feed.Subscribed other symbol ∧ ¬(symbol = first ∧ other = sessionId) := by
  have hid : other.toUInt64 = sessionId.toUInt64 ↔ other = sessionId := UInt32.toUInt64_inj
  have hnot : ¬request.Subscribes := by
    unfold MarketDataRequest.Unsubscribes at h
    rw [MarketDataRequest.Subscribes, h]
    decide
  simp only [handleMarketDataRequest, hsymbols, h, hnot, if_true, if_false, Subscribed,
    unsubscribeFromMarketData, MarketDataPublisher.mem_removeSubscription, hid]
  rfl

/-- A request without symbols, or of another type, does nothing. -/
theorem handleMarketDataRequest_eq_self (h : request.symbols = [] ∨
      ¬request.Subscribes ∧ ¬request.Unsubscribes) :
    feed.handleMarketDataRequest sessionId entriesOf request = (feed, []) := by
  unfold handleMarketDataRequest
  split
  · rfl
  · next hsymbols =>
      obtain ⟨hsubscribes, hunsubscribes⟩ := h.resolve_left (by simp [hsymbols])
      rw [if_neg hsubscribes, if_neg hunsubscribes]

theorem lastRequest_noteRequest (other : ConnectionID) (symbol : Instrument) :
    (feed.noteRequest sessionId request).lastRequest other symbol =
      if (request.Subscribes ∨ request.Unsubscribes) ∧ other = sessionId ∧
        symbol ∈ request.symbols then request.subscriptionRequestType
      else feed.lastRequest other symbol := by
  unfold noteRequest
  by_cases hkind : request.Subscribes ∨ request.Unsubscribes
  · by_cases hother : other = sessionId
    · subst hother
      simp [hkind]
    · simp [hkind, hother]
  · simp [hkind]

/-- What a session does with a request, once it is noted. -/
def answer (feed : MarketDataFeed) (sessionId : ConnectionID)
    (entriesOf : Instrument → List (MarketDataEntry Double)) (request : MarketDataRequest) :
    MarketDataFeed × List (MarketDataSnapshotFullRefresh Double) :=
  (feed.noteRequest sessionId request).handleMarketDataRequest sessionId entriesOf request

theorem noteRequest_same :
    (feed.noteRequest sessionId request).server = feed.server ∧
      (feed.noteRequest sessionId request).publisher = feed.publisher := by
  unfold noteRequest
  split_ifs <;> exact ⟨rfl, rfl⟩

theorem subscribed_noteRequest (symbol : Instrument) :
    (feed.noteRequest sessionId request).Subscribed other symbol ↔
      feed.Subscribed other symbol := by
  rw [Subscribed, noteRequest_same.2, Subscribed]

theorem connected_answer :
    (feed.answer sessionId entriesOf request).1.Connected other ↔ feed.Connected other := by
  rw [answer, handleMarketDataRequest_same.connected, Connected, noteRequest_same.1, Connected]

theorem lastRequest_answer (other : ConnectionID) (symbol : Instrument) :
    (feed.answer sessionId entriesOf request).1.lastRequest other symbol =
      if (request.Subscribes ∨ request.Unsubscribes) ∧ other = sessionId ∧
        symbol ∈ request.symbols then request.subscriptionRequestType
      else feed.lastRequest other symbol := by
  rw [answer, handleMarketDataRequest_same.lastRequest, lastRequest_noteRequest]

/-- Other sessions are not concerned, and neither is anyone by a request without
symbols or of another type. -/
theorem answered_answer_of_not (entriesOf : Instrument → List (MarketDataEntry Double))
    (symbol : Instrument) (h : other ≠ sessionId ∨ request.symbols = [] ∨
      ¬request.Subscribes ∧ ¬request.Unsubscribes) :
    (feed.answer sessionId entriesOf request).1.Answered other symbol ↔
      feed.Answered other symbol := by
  have hlast : (feed.answer sessionId entriesOf request).1.lastRequest other symbol =
      feed.lastRequest other symbol := by
    rw [lastRequest_answer, if_neg]
    rintro ⟨hkind, hother, hmem⟩
    rcases h with h | h | ⟨hsubscribes, hunsubscribes⟩
    · exact h hother
    · simp [h] at hmem
    · exact hkind.elim hsubscribes hunsubscribes
  have hsubscribed : (feed.answer sessionId entriesOf request).1.Subscribed other symbol ↔
      feed.Subscribed other symbol := by
    by_cases hnothing : request.symbols = [] ∨ ¬request.Subscribes ∧ ¬request.Unsubscribes
    · rw [answer, handleMarketDataRequest_eq_self hnothing, subscribed_noteRequest]
    · obtain ⟨hsome, hkind⟩ := not_or.mp hnothing
      have hne : other ≠ sessionId := h.resolve_right hnothing
      obtain ⟨first, rest, hsymbols⟩ := List.exists_cons_of_ne_nil hsome
      by_cases hsubscribes : request.Subscribes
      · rw [answer, subscribed_of_subscribes hsymbols hsubscribes, subscribed_noteRequest]
        simp [hne]
      · have hunsubscribes : request.Unsubscribes := by
          by_contra hnot
          exact hkind ⟨hsubscribes, hnot⟩
        rw [answer, subscribed_of_unsubscribes hsymbols hunsubscribes, subscribed_noteRequest]
        simp [hne]
  rw [Answered, hlast, hsubscribed, Answered]

/-- The one snapshot is all that is asked for. -/
theorem onePerSymbol_iff {first : Instrument} {rest : List Instrument}
    {snapshots : List (MarketDataSnapshotFullRefresh Double)}
    (hsymbols : request.symbols = first :: rest)
    (hsnapshots : snapshots.map (fun snapshot => (snapshot.targetSessionID, snapshot.symbol)) =
      if sessionId = 0 then [] else [(sessionId, first)]) :
    OnePerSymbol sessionId request snapshots ↔
      ∀ symbol ∈ request.symbols, request.symbols.head? = some symbol ∧ sessionId ≠ 0 := by
  unfold OnePerSymbol
  rw [hsnapshots, hsymbols]
  constructor
  · intro h symbol hmem
    have hcount := h sessionId symbol
    rw [if_pos (c := sessionId = sessionId ∧ symbol ∈ first :: rest) ⟨rfl, hmem⟩] at hcount
    by_cases hzero : sessionId = 0
    · simp [hzero] at hcount
    · rw [if_neg hzero, List.count_singleton] at hcount
      refine ⟨?_, hzero⟩
      by_contra hne
      have hfirst : first ≠ symbol := fun heq => hne (congrArg some heq)
      simp [hfirst] at hcount
  · intro h target symbol
    have hzero : sessionId ≠ 0 := (h first (by simp)).2
    rw [if_neg hzero, List.count_singleton]
    have hmem : symbol ∈ first :: rest ↔ first = symbol := by
      constructor
      · exact fun hmem => Option.some.inj (h symbol hmem).1
      · rintro rfl
        exact List.mem_cons_self
    simp only [hmem, beq_iff_eq, Prod.mk.injEq, eq_comm (a := sessionId)]

theorem onePerSymbol_nil (h : request.symbols = []) : OnePerSymbol sessionId request [] := by
  intro target symbol
  simp [h]

theorem answer_sends (entriesOf : Instrument → List (MarketDataEntry Double))
    {first : Instrument} {rest : List Instrument}
    (hconnected : feed.Connected sessionId) (hsymbols : request.symbols = first :: rest)
    (h : request.Subscribes) :
    (feed.answer sessionId entriesOf request).2.map
      (fun snapshot => (snapshot.targetSessionID, snapshot.symbol)) =
        if sessionId = 0 then [] else [(sessionId, first)] := by
  simp only [answer, handleMarketDataRequest, hsymbols, h, if_true]
  apply subscribeToMarketData_sends
  rw [Connected, setMarketDataReqId, noteRequest_same.1]
  exact hconnected

/-- A request that subscribes is answered as it asks when it asks for the updates of
one symbol. -/
theorem namesOne_iff_of_subscribes (entriesOf : Instrument → List (MarketDataEntry Double))
    {first : Instrument} {rest : List Instrument}
    (hsymbols : request.symbols = first :: rest) (hsubscribes : request.Subscribes)
    (hconnected : feed.Connected sessionId)
    (hanswered : ∀ symbol, feed.Answered sessionId symbol) :
    feed.NamesOne sessionId request ↔
      (∀ symbol, (feed.answer sessionId entriesOf request).1.Answered sessionId symbol) ∧
        OnePerSymbol sessionId request (feed.answer sessionId entriesOf request).2 := by
  have hone := onePerSymbol_iff hsymbols
    (answer_sends entriesOf hconnected hsymbols hsubscribes)
  have hsubscribed : ∀ symbol,
      (feed.answer sessionId entriesOf request).1.Subscribed sessionId symbol ↔
        feed.Subscribed sessionId symbol ∨ symbol = first := by
    intro symbol
    rw [answer, subscribed_of_subscribes hsymbols hsubscribes, subscribed_noteRequest]
    simp
  have hlast : ∀ symbol,
      (feed.answer sessionId entriesOf request).1.lastRequest sessionId symbol =
        if symbol ∈ request.symbols then request.subscriptionRequestType
        else feed.lastRequest sessionId symbol := by
    intro symbol
    simp [lastRequest_answer, hsubscribes]
  rw [hone]
  rcases hsubscribes with hsnapshot | hupdates
  · constructor
    · intro h
      have hnil := h.1 hsnapshot
      simp [hsymbols] at hnil
    · rintro ⟨hall, hnames⟩
      obtain ⟨_, hne⟩ := hnames first (by simp [hsymbols])
      have hfirst := (hall first).mp ⟨hne, (hsubscribed first).mpr (Or.inr rfl)⟩
      rw [hlast, if_pos (by simp [hsymbols]), hsnapshot] at hfirst
      exact absurd hfirst (by decide)
  · constructor
    · intro h
      have hnames := h.2.1 hupdates
      refine ⟨fun symbol => ?_, hnames⟩
      by_cases hmem : symbol ∈ request.symbols
      · obtain ⟨hhead, hne⟩ := hnames symbol hmem
        have hfirst : symbol = first := by
          rw [hsymbols] at hhead
          exact (Option.some.inj hhead).symm
        rw [Answered, hsubscribed, hlast, if_pos hmem, hupdates]
        simp [hne, hfirst]
      · have hfirst : symbol ≠ first := by
          rintro rfl
          simp [hsymbols] at hmem
        rw [Answered, hsubscribed, hlast, if_neg hmem, or_iff_left hfirst]
        exact hanswered symbol
    · rintro ⟨_, hnames⟩
      refine ⟨fun hsnapshot => ?_, fun _ => hnames, fun hunsubscribes => ?_⟩
      · rw [hupdates] at hsnapshot
        exact absurd hsnapshot (by decide)
      · rw [MarketDataRequest.Unsubscribes, hupdates] at hunsubscribes
        exact absurd hunsubscribes (by decide)

/-- One that unsubscribes, when it ends what it names. -/
theorem namesOne_iff_of_unsubscribes (entriesOf : Instrument → List (MarketDataEntry Double))
    {first : Instrument} {rest : List Instrument}
    (hsymbols : request.symbols = first :: rest) (hunsubscribes : request.Unsubscribes)
    (hanswered : ∀ symbol, feed.Answered sessionId symbol) :
    feed.NamesOne sessionId request ↔
      ∀ symbol, (feed.answer sessionId entriesOf request).1.Answered sessionId symbol := by
  have hsubscribed : ∀ symbol,
      (feed.answer sessionId entriesOf request).1.Subscribed sessionId symbol ↔
        feed.Subscribed sessionId symbol ∧ symbol ≠ first := by
    intro symbol
    rw [answer, subscribed_of_unsubscribes hsymbols hunsubscribes, subscribed_noteRequest]
    simp
  have hlast : ∀ symbol,
      (feed.answer sessionId entriesOf request).1.lastRequest sessionId symbol =
        if symbol ∈ request.symbols then some subscriptionRequestTypeUnsubscribe
        else feed.lastRequest sessionId symbol := by
    intro symbol
    have htype : request.subscriptionRequestType = _ := hunsubscribes
    simp [lastRequest_answer, hunsubscribes, htype]
  have hnamed : ∀ symbol ∈ request.symbols,
      ((feed.answer sessionId entriesOf request).1.Answered sessionId symbol ↔
        request.symbols.head? = some symbol ∨ sessionId = 0 ∨
          ¬feed.Subscribed sessionId symbol) := by
    intro symbol hmem
    have hother : some subscriptionRequestTypeUnsubscribe ≠
        some subscriptionRequestTypeSnapshotAndUpdates := by decide
    rw [Answered, hsubscribed, hlast, if_pos hmem, iff_false_intro hother, hsymbols]
    simp only [List.head?_cons, Option.some.injEq, eq_comm (a := first)]
    tauto
  constructor
  · intro h symbol
    by_cases hmem : symbol ∈ request.symbols
    · exact (hnamed symbol hmem).mpr (h.2.2 hunsubscribes symbol hmem)
    · have hfirst : symbol ≠ first := by
        rintro rfl
        simp [hsymbols] at hmem
      rw [Answered, hsubscribed, hlast, if_neg hmem, and_iff_left hfirst]
      exact hanswered symbol
  · intro hall
    have htype : request.subscriptionRequestType = _ := hunsubscribes
    refine ⟨fun hsnapshot => ?_, fun hupdates => ?_, fun _ symbol hmem => ?_⟩
    · rw [htype] at hsnapshot
      exact absurd hsnapshot (by decide)
    · rw [htype] at hupdates
      exact absurd hupdates (by decide)
    · exact (hnamed symbol hmem).mp (hall symbol)

/-- A request is answered as it asks exactly when it names one. -/
theorem namesOne_iff (entriesOf : Instrument → List (MarketDataEntry Double))
    (hconnected : feed.Connected sessionId)
    (hanswered : ∀ symbol, feed.Answered sessionId symbol) :
    feed.NamesOne sessionId request ↔
      (∀ symbol, (feed.answer sessionId entriesOf request).1.Answered sessionId symbol) ∧
        (request.Subscribes →
          OnePerSymbol sessionId request (feed.answer sessionId entriesOf request).2) := by
  by_cases hnothing : request.symbols = [] ∨ ¬request.Subscribes ∧ ¬request.Unsubscribes
  · have hall : ∀ symbol,
        (feed.answer sessionId entriesOf request).1.Answered sessionId symbol := fun symbol =>
      (answered_answer_of_not entriesOf symbol (Or.inr hnothing)).mpr (hanswered symbol)
    refine iff_of_true ?_ ⟨hall, fun hsubscribes => ?_⟩
    · rcases hnothing with hnil | ⟨hsubscribes, hunsubscribes⟩
      · simp [NamesOne, hnil]
      · exact ⟨fun h => (hsubscribes (Or.inl h)).elim, fun h => (hsubscribes (Or.inr h)).elim,
          fun h => (hunsubscribes h).elim⟩
    · have hnil : request.symbols = [] := hnothing.resolve_right fun h => h.1 hsubscribes
      rw [answer, handleMarketDataRequest_eq_self hnothing]
      exact onePerSymbol_nil hnil
  · obtain ⟨hsome, hkind⟩ := not_or.mp hnothing
    obtain ⟨first, rest, hsymbols⟩ := List.exists_cons_of_ne_nil hsome
    by_cases hsubscribes : request.Subscribes
    · rw [namesOne_iff_of_subscribes entriesOf hsymbols hsubscribes hconnected hanswered,
        imp_iff_right hsubscribes]
    · have hunsubscribes : request.Unsubscribes := by
        by_contra hnot
        exact hkind ⟨hsubscribes, hnot⟩
      rw [namesOne_iff_of_unsubscribes entriesOf hsymbols hunsubscribes hanswered]
      exact (and_iff_left fun h => (hsubscribes h).elim).symm

/-! ### Frames, connections and disconnects -/

/-- A frame with a market data request has no other effect. -/
theorem effects_of_marketDataRequest {ctx : HandlerContext} {manager : FixSessionManager}
    {fixMessage : Message} {r : FixSessionManager × List SessionEffect}
    (h : FixSession.handleFrame ctx manager sessionId fixMessage = some r)
    (hrequest : SessionEffect.marketDataRequest r.2 = some request) :
    r.2 = [.handleMarketDataRequest fixMessage] := by
  rcases FixSession.handleFrame_eq h with rfl | ⟨c, _, rfl⟩
  · simp [FixSession.sendReject, FixSession.buildNext, SessionEffect.marketDataRequest] at hrequest
  · rcases FixSession.handleFixMessage_cases ctx manager sessionId fixMessage c with
      hcase | hcase | hcase | ⟨n, _, hcase | ⟨_, hcase⟩⟩ <;> rw [hcase] at hrequest ⊢
    · simp [SessionEffect.marketDataRequest] at hrequest
    · simp [SessionEffect.marketDataRequest] at hrequest
    · simp [FixSession.handleLogout, SessionEffect.marketDataRequest] at hrequest
    · obtain ⟨logout, logonAck, heq⟩ :=
        FixSession.handleLogon_eq ctx manager sessionId fixMessage n
      rw [heq] at hrequest
      split_ifs at hrequest <;> simp [SessionEffect.marketDataRequest] at hrequest
    · unfold FixSession.dispatch at hrequest ⊢
      split_ifs at hrequest ⊢
      · simp [FixSession.handleTestRequest, FixSession.buildNext,
          SessionEffect.marketDataRequest] at hrequest
      · unfold FixSession.handleNewOrderSingle at hrequest
        split at hrequest <;> simp [FixSession.sendBusinessMessageReject, FixSession.buildNext,
          SessionEffect.marketDataRequest] at hrequest
      · unfold FixSession.handleCancelOrderRequest at hrequest
        split at hrequest
        · simp [SessionEffect.marketDataRequest] at hrequest
        · split_ifs at hrequest <;> simp [SessionEffect.marketDataRequest] at hrequest
      · unfold FixSession.handleModifyOrderRequest at hrequest
        split at hrequest
        · simp [SessionEffect.marketDataRequest] at hrequest
        · split_ifs at hrequest <;> simp [SessionEffect.marketDataRequest] at hrequest
      · rfl
      · simp [SessionEffect.marketDataRequest] at hrequest

theorem requestOf_eq_some (h : feed.requestOf event = some (sessionId, request)) :
    SameSessions feed (feed.serverStep event) ∧
      (feed.serverStep event).publisher = feed.publisher ∧ event ≠ .accept := by
  cases event with
  | frame id ctx fixMessage =>
      unfold requestOf at h
      split_ifs at h with hrunning
      obtain ⟨request, hrequest, _⟩ := Option.map_eq_some_iff.mp h
      have hsessions : (feed.server.receive id ctx fixMessage).1.sessions =
          feed.server.sessions := by
        cases hconnection : feed.server.sessions id with
        | none => simp [FixServer.receive, hconnection]
        | some connection =>
            cases hframe : FixSession.handleFrame ctx feed.server.manager id fixMessage with
            | none => simp [FixServer.receive, hconnection, hframe]
            | some r =>
                have heffects : r.2 = _ := effects_of_marketDataRequest hframe
                  (by simpa [FixServer.receive, hconnection, hframe] using hrequest)
                simp only [FixServer.receive, hconnection, hframe, heffects]
                exact Function.update_eq_self_iff.mpr hconnection.symm
      refine ⟨⟨?_, ?_⟩, ?_, by simp⟩
      · simpa [serverStep, hrunning, FixServer.step] using hsessions
      · simp [serverStep, hrunning]
      · simp [serverStep, hrunning]
  | _ => simp [requestOf] at h

theorem answered_congr {symbol : Instrument}
    (hpublisher : feed'.publisher = feed.publisher)
    (hlast : feed'.lastRequest sessionId = feed.lastRequest sessionId) :
    feed'.Answered sessionId symbol ↔ feed.Answered sessionId symbol := by
  rw [Answered, Answered, Subscribed, Subscribed, hpublisher, hlast]

theorem isOpen_of_foldl_apply (effects : List SessionEffect) {connection : Connection}
    (h : (effects.foldl Connection.apply connection).isOpen = true) :
    connection.isOpen = true := by
  induction effects generalizing connection with
  | nil => exact h
  | cons effect effects ih =>
      have happly : (connection.apply effect).isOpen = true := ih h
      cases effect with
      | close => cases happly
      | _ => exact happly

theorem isOpen_of_receive {server : FixServer} {ctx : HandlerContext} {fixMessage : Message}
    (h : ((server.receive sessionId ctx fixMessage).1.sessions other).any Connection.isOpen =
      true) :
    (server.sessions other).any Connection.isOpen = true := by
  unfold FixServer.receive at h
  split at h
  · exact h
  · next connection hconnection =>
      split at h
      · exact h
      · by_cases hother : other = sessionId
        · subst hother
          simp only [Function.update_self, Option.any_some] at h
          rw [hconnection]
          exact isOpen_of_foldl_apply _ h
        · simpa only [Function.update_of_ne hother] using h

/-- A connection that is open after a step of the server was so before, and nothing
has changed for it, or it is new. -/
theorem serverStep_connected (h : (feed.serverStep event).Connected sessionId) :
    (feed.Connected sessionId ∧ ∀ symbol,
      ((feed.serverStep event).Answered sessionId symbol ↔ feed.Answered sessionId symbol)) ∨
    event = .accept ∧ feed.server.running = true ∧ sessionId = feed.server.nextSessionId := by
  by_cases hrunning : feed.server.running = true
  · simp only [serverStep, if_pos hrunning] at h ⊢
    cases event with
    | accept =>
        by_cases hnew : sessionId = feed.server.nextSessionId
        · exact Or.inr ⟨rfl, hrunning, hnew⟩
        · refine Or.inl ⟨?_, fun symbol => answered_congr rfl (Function.update_of_ne hnew ..)⟩
          simpa [Connected, FixServer.step, hrunning, FixServer.accept,
            Function.update_of_ne hnew] using h
    | frame id ctx fixMessage =>
        refine Or.inl ⟨?_, fun symbol => answered_congr rfl rfl⟩
        simp only [Connected, FixServer.step, if_pos hrunning] at h
        exact isOpen_of_receive h
    | malformed id ctx error =>
        refine Or.inl ⟨?_, fun symbol => answered_congr rfl rfl⟩
        simp only [Connected, FixServer.step, if_pos hrunning, FixServer.rejectMalformed] at h
        split at h <;> exact h
    | disconnect id =>
        have hne : sessionId ≠ id := by
          rintro rfl
          simp [Connected, FixServer.step, hrunning, FixServer.unregisterSession] at h
        refine Or.inl ⟨?_, fun symbol => ?_⟩
        · simpa [Connected, FixServer.step, hrunning, FixServer.unregisterSession,
            Function.update_of_ne hne] using h
        · have hid : sessionId.toUInt64 ≠ id.toUInt64 :=
            fun heq => hne (UInt32.toUInt64_inj.mp heq)
          simp only [Answered, Subscribed, MarketDataPublisher.mem_removeSession, hid, ne_eq,
            not_false_eq_true, and_true]
    | outbound id =>
        refine Or.inl ⟨?_, fun symbol => answered_congr rfl rfl⟩
        simp only [Connected, FixServer.step, if_pos hrunning, FixServer.sendTo] at h
        split at h <;> exact h
    | loadConfig validClients =>
        refine Or.inl ⟨?_, fun symbol => answered_congr rfl rfl⟩
        simpa only [Connected, FixServer.step, if_pos hrunning] using h
  · rw [serverStep, if_neg hrunning] at h ⊢
    exact Or.inl ⟨h, fun symbol => Iff.rfl⟩

/-- A new connection has asked for nothing. -/
theorem serverStep_accept (hrunning : feed.server.running = true) :
    (feed.serverStep .accept).Connected feed.server.nextSessionId ∧ ∀ symbol,
      ((feed.serverStep .accept).Answered feed.server.nextSessionId symbol ↔
        feed.server.nextSessionId = 0 ∨
          ¬feed.Subscribed feed.server.nextSessionId symbol) := by
  constructor
  · simp [serverStep, hrunning, Connected, FixServer.step, FixServer.accept]
  · intro symbol
    simp only [serverStep, if_pos hrunning, Answered, Function.update_self, Subscribed]
    simp [imp_iff_not_or]

/-! ## Whole runs -/

theorem widened_serverStep (hwide : feed.Widened) : (feed.serverStep event).Widened := by
  intro symbol id hmem
  apply hwide symbol id
  unfold serverStep at hmem
  split_ifs at hmem
  · cases event with
    | disconnect sessionId => exact (MarketDataPublisher.mem_removeSession.mp hmem).1
    | _ => exact hmem
  · exact hmem

theorem widened_handleMarketDataRequest (hwide : feed.Widened) :
    (feed.handleMarketDataRequest sessionId entriesOf request).1.Widened := by
  intro symbol id hmem
  unfold handleMarketDataRequest at hmem
  split at hmem
  · exact hwide symbol id hmem
  · next targetSymbol _ _ =>
      split_ifs at hmem
      · rw [(subscribeToMarketData_same _ sessionId targetSymbol entriesOf).2] at hmem
        rcases MarketDataPublisher.mem_addSubscription.mp hmem with hmem | ⟨_, rfl⟩
        · exact hwide symbol id hmem
        · rw [UInt32.toUInt32_toUInt64]
      · exact hwide symbol id (MarketDataPublisher.mem_removeSubscription.mp hmem).1
      · exact hwide symbol id hmem

theorem widened_next (hwide : feed.Widened) : (feed.next e).Widened := by
  have hserver : (feed.serverStep e.event).Widened := widened_serverStep hwide
  unfold next step
  split
  · exact hserver
  · next sessionId request _ =>
      apply widened_handleMarketDataRequest
      rw [Widened, noteRequest_same.2]
      exact hserver

/-- A step without a request. -/
theorem follows_of_no_request (hwide : feed.Widened) (hfollow : feed.UpdatesFollow)
    (hnone : feed.requestOf e.event = none) :
    (feed.next e).UpdatesFollow ↔ feed.Answerable e := by
  have hnext : feed.next e = feed.serverStep e.event := by
    simp [next, step, hnone]
  rw [updatesFollow_iff hwide] at hfollow
  rw [updatesFollow_iff (widened_next hwide), hnext]
  constructor
  · intro hall
    refine ⟨fun sessionId request h => by simp [hnone] at h, fun haccept hrunning symbol => ?_⟩
    obtain ⟨hconnected, hanswered⟩ := serverStep_accept hrunning
    rw [haccept] at hall
    exact (hanswered symbol).mp (hall _ hconnected symbol)
  · rintro ⟨_, hfresh⟩ sessionId hconnected symbol
    rcases serverStep_connected hconnected with ⟨hbefore, hsame⟩ | ⟨haccept, hrunning, rfl⟩
    · exact (hsame symbol).mpr (hfollow sessionId hbefore symbol)
    · rw [haccept, (serverStep_accept hrunning).2]
      exact hfresh haccept hrunning symbol

/-- A step with a request. -/
theorem follows_of_request (hwide : feed.Widened) (hfollow : feed.UpdatesFollow)
    (hrequest : feed.requestOf e.event = some (sessionId, request)) :
    ((feed.next e).UpdatesFollow ∧ feed.SnapshotsFollow e) ↔ feed.Answerable e := by
  obtain ⟨hsame, hpublisher, hnot⟩ := requestOf_eq_some hrequest
  have hstep : feed.step e =
      (feed.serverStep e.event).answer sessionId e.entriesOf request := by
    simp only [step, hrequest, answer]
  have hanswered : ∀ other symbol,
      (feed.serverStep e.event).Answered other symbol ↔ feed.Answered other symbol :=
    fun other symbol => answered_congr hpublisher (congrFun hsame.lastRequest other)
  have hconnected : ∀ other, (feed.next e).Connected other ↔ feed.Connected other := by
    intro other
    rw [next, hstep, connected_answer, hsame.connected]
  have hnames : (feed.serverStep e.event).NamesOne sessionId request ↔
      feed.NamesOne sessionId request := by
    simp only [NamesOne, Subscribed, hpublisher]
  have hanswerable : feed.Answerable e ↔
      (feed.Connected sessionId → feed.NamesOne sessionId request) := by
    constructor
    · exact fun h => h.1 sessionId request hrequest
    · refine fun h => ⟨fun other request' hother => ?_, fun haccept => (hnot haccept).elim⟩
      obtain ⟨rfl, rfl⟩ := Prod.mk.inj (Option.some.inj (hrequest.symm.trans hother))
      exact h
  have hsnapshots : feed.SnapshotsFollow e ↔ (feed.Connected sessionId →
      request.Subscribes → OnePerSymbol sessionId request (feed.step e).2) := by
    constructor
    · exact fun h => h sessionId request hrequest
    · intro h other request' hother
      obtain ⟨rfl, rfl⟩ := Prod.mk.inj (Option.some.inj (hrequest.symm.trans hother))
      exact h
  rw [updatesFollow_iff hwide] at hfollow
  have hothers : ∀ other symbol, feed.Connected other → other ≠ sessionId →
      (feed.next e).Answered other symbol := by
    intro other symbol hother hne
    rw [next, hstep, answered_answer_of_not e.entriesOf symbol (Or.inl hne), hanswered]
    exact hfollow other hother symbol
  rw [updatesFollow_iff (widened_next hwide), hanswerable, hsnapshots]
  by_cases hopen : feed.Connected sessionId
  · have hiff : (feed.serverStep e.event).NamesOne sessionId request ↔ _ :=
      namesOne_iff e.entriesOf (hsame.connected.mpr hopen)
        (fun symbol => (hanswered sessionId symbol).mpr (hfollow sessionId hopen symbol))
    rw [hnames] at hiff
    rw [imp_iff_right hopen, imp_iff_right hopen, hiff, next, hstep]
    refine and_congr_left fun _ => ⟨fun h symbol => ?_, fun h other hother symbol => ?_⟩
    · apply h sessionId
      rw [connected_answer, hsame.connected]
      exact hopen
    · rw [connected_answer, hsame.connected] at hother
      by_cases hne : other = sessionId
      · exact hne ▸ h symbol
      · have hanswer := hothers other symbol hother hne
        rwa [next, hstep] at hanswer
  · refine iff_of_true ⟨fun other hother symbol => ?_, fun h => (hopen h).elim⟩
      fun h => (hopen h).elim
    rw [hconnected] at hother
    apply hothers other symbol hother
    rintro rfl
    exact hopen hother

/-- The refreshes and the snapshots that the sessions get are those that they have
asked for, in exactly the runs whose requests name at most one symbol that they
change anything for, and are not for a snapshot alone. -/
theorem followsRequests_iff (seqRepo : Option SequenceRepository) (events : List FeedEvent) :
    (start seqRepo).FollowsRequests events ↔
      TotalRun.Meets next Answerable (start seqRepo) events := by
  have hwide : (start seqRepo).Widened := fun _ _ h => nomatch h
  have hfollow : (start seqRepo).UpdatesFollow := by
    rw [updatesFollow_iff hwide]
    intro sessionId hconnected
    cases hconnected
  refine TotalRun.always_and_meets_iff
    (fun (feed : MarketDataFeed) (h : feed.Widened ∧ feed.UpdatesFollow) => h.2) ?_
    ⟨hwide, hfollow⟩
  rintro feed e ⟨hwide, hfollow⟩
  have hstep : ((feed.next e).UpdatesFollow ∧ feed.SnapshotsFollow e) ↔ feed.Answerable e := by
    cases hrequest : feed.requestOf e.event with
    | none =>
        rw [← follows_of_no_request hwide hfollow hrequest]
        apply and_iff_left
        intro sessionId request h
        simp [hrequest] at h
    | some pair => exact follows_of_request hwide hfollow hrequest
  refine ⟨fun h => ?_, fun hupdates hsnapshots => hstep.mp ⟨hupdates, hsnapshots⟩⟩
  obtain ⟨hupdates, hsnapshots⟩ := hstep.mpr h
  exact ⟨⟨widened_next hwide, hupdates⟩, hsnapshots⟩

end MarketDataFeed

namespace MarketDataFeed

namespace Sample

def request (subscriptionRequestType : Char) (related : List Instrument) : Message :=
  OutboundMessageBuilder.buildMessage "C1".toList "BETA_EXCHANGE".toList 2 ['V']
    (Text.close soh ([FixUtils.field 262 "R1".toList,
      FixUtils.field 263 [subscriptionRequestType], FixUtils.field 264 ['0'],
      FixUtils.field 146 (Decimal.natText related.length)] ++
        related.map fun symbol => FixUtils.field 55 symbol.name)) 0

/-- A client logs on and sends a request. -/
def events (subscriptionRequestType : Char) (related : List Instrument) : List FeedEvent :=
  (FixServer.Sample.loggedOn ++ [ServerEvent.frame 1 (FixServer.Sample.ctx 0)
    (request subscriptionRequestType related)]).map fun event =>
      { event := event, entriesOf := fun _ => [] }

def refreshOf (symbol : Instrument) : MarketDataIncrementalRefresh Double :=
  { targetSessionID := none, mdReqID := "", symbol := symbol, entries := [] }

/-- The session should get refreshes of the symbol. -/
def wants (feed : MarketDataFeed) (symbol : Instrument) : Prop :=
  feed.Connected 1 ∧
    feed.lastRequest 1 (refreshOf symbol).symbol = some subscriptionRequestTypeSnapshotAndUpdates

instance (feed : MarketDataFeed) (symbol : Instrument) : Decidable (wants feed symbol) :=
  inferInstanceAs (Decidable (_ ∧ _))

end Sample

/-- A request for a snapshot of EURUSD starts updates, and one for the updates of
EURUSD and GBPUSD does not bring those of GBPUSD. -/
theorem requests_not_followed :
    ¬(start none).FollowsRequests (Sample.events '0' [.eurusd]) ∧
      ¬(start none).FollowsRequests (Sample.events '1' [.eurusd, .gbpusd]) := by
  have hdecided :
      ¬(1 ∈ ((Sample.events '0' [.eurusd]).foldl next (start none)).receivers
          (Sample.refreshOf .eurusd) ↔
        Sample.wants ((Sample.events '0' [.eurusd]).foldl next (start none)) .eurusd) ∧
      ¬(1 ∈ ((Sample.events '1' [.eurusd, .gbpusd]).foldl next (start none)).receivers
          (Sample.refreshOf .gbpusd) ↔
        Sample.wants ((Sample.events '1' [.eurusd, .gbpusd]).foldl next (start none)) .gbpusd) := by
    decide +kernel
  constructor
  · exact fun h => hdecided.1 (h.1.last (Sample.refreshOf .eurusd) 1)
  · exact fun h => hdecided.2 (h.1.last (Sample.refreshOf .gbpusd) 1)

end MarketDataFeed

end BetaTrader
