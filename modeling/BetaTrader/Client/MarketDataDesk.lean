import BetaTrader.Client.MarketDataPanel
import BetaTrader.Client.RequestWire
import BetaTrader.Client.SessionCalls
import BetaTrader.Exchange.Subscriptions

/-!
# The panel and the exchange

The panel, its session, the requests on their way and the exchange, step by step: the
exchange has subscribed, once it has read what is on its way, what the panel shows.
-/

namespace BetaTrader

open FixClientSession

/-! ## A frame of the panel -/

/-- What the user does in a frame, and what is read from outside then. -/
structure PanelInput where
  connect : Bool
  logon : Bool
  logout : Bool
  disconnect : Bool
  /-- The symbol that the combo box reports. -/
  symbol : Option Instrument
  /-- The button below it, which subscribes or unsubscribes. -/
  button : Bool
  senderCompId : Message
  targetCompId : Message
  heartbeatInterval : ℤ
  forceReset : Bool
  /-- The numbers that a new session finds in its file. -/
  seqStore : SeqNumStore
  clock : Clock

namespace ConnectionPanel

/-- The buttons of the session; where there is none yet, it counts as disconnected. -/
def lifecycle (session : FixClientSession) (input : PanelInput) : FixClientSession :=
  let isDisconnected := session.state = .disconnected
  let isConnected := session.state = .connected
  let isActive := session.state = .active
  let session := if isDisconnected ∧ input.connect then
      { senderCompId := input.senderCompId
        targetCompId := input.targetCompId
        state := .connecting
        seqStore := input.seqStore
        hasOrderIntentCallback := false }
    else session
  let session := if (isConnected ∨ isActive) ∧ input.logon then
      (session.sendLogon input.heartbeatInterval input.forceReset (input.clock 0)).1
    else session
  let session := if isActive ∧ input.logout then
      (session.sendLogout "User requested logout".toList (input.clock 1)).1
    else session
  if ¬isDisconnected ∧ input.disconnect then session.disconnect.1 else session

/-- The calls of a frame, and the messages that they write. -/
def sendCalls : FixClientSession → List MarketDataCall → Clock → FixClientSession × List Message
  | session, [], _ => (session, [])
  | session, call :: calls, clock =>
      let (session, effects) := session.sendMarketDataRequest call.symbol
        call.subscriptionRequestType (clock 0) (clock 1)
      let (session, sent) := sendCalls session calls fun n => clock (n + 2)
      (session, FixClientEffect.messages effects ++ sent)

/-- `render` with the buttons of the session and the market data below. -/
def render (state : MarketDataState) (session : FixClientSession) (input : PanelInput) :
    MarketDataState × FixClientSession × List Message :=
  let session := lifecycle session input
  let (state, calls) := marketData state session.state input.symbol input.button
  (state, sendCalls session calls fun n => input.clock (n + 2))

end ConnectionPanel

/-! ## The panel and the exchange -/

/-- The panel, its session, the requests on their way, and the exchange with the number
of the connection. -/
structure Desk where
  panel : MarketDataState
  session : FixClientSession
  /-- `connect` has been called on the session, and has no outcome yet. -/
  pending : Bool
  inFlight : List Message
  feed : MarketDataFeed
  connection : ConnectionID

inductive DeskEvent where
  | frame (input : PanelInput)
  /-- The exchange accepts the connection. -/
  | connected
  /-- The answer of the exchange to the logon. -/
  | logonAccepted
  /-- The connection is at an end for the client, or has not come about. -/
  | dropped
  /-- The exchange reads the next request. -/
  | delivered (ctx : HandlerContext) (entriesOf : Instrument → List (MarketDataEntry Double))
  /-- Whatever else happens at the exchange. -/
  | exchange (e : FeedEvent)

namespace Desk

open MarketDataFeed

/-- A client without a session, at some exchange. -/
def start (session : FixClientSession) (feed : MarketDataFeed) : Desk where
  panel := .start
  session := { session with state := .disconnected }
  pending := false
  inFlight := []
  feed := feed
  connection := 0

def read (connection : ConnectionID) (feed : MarketDataFeed) (text : Message) (ctx : HandlerContext)
    (entriesOf : Instrument → List (MarketDataEntry Double)) : MarketDataFeed :=
  feed.next { event := .frame connection ctx text, entriesOf := entriesOf }

def step (s : Desk) : DeskEvent → Desk
  | .frame input =>
      let (panel, session, sent) := ConnectionPanel.render s.panel s.session input
      { s with
        panel := panel
        session := session
        pending := s.pending || s.session.state = .disconnected && input.connect
        inFlight := s.inFlight ++ sent }
  | .connected =>
      if s.pending then
        { s with
          session := { s.session with state := .connected }
          pending := false
          -- what is on its way belongs to the connection before
          inFlight := []
          feed := s.feed.serverStep .accept
          connection := s.feed.server.nextSessionId }
      else s
  | .logonAccepted =>
      if s.session.state = .logonSent then { s with session := s.session.handleLogonResponse.1 }
      else s
  | .dropped => { s with session := s.session.disconnect.1, pending := false }
  | .delivered ctx entriesOf =>
      match s.inFlight with
      | [] => s
      | text :: rest =>
          { s with inFlight := rest, feed := read s.connection s.feed text ctx entriesOf }
  | .exchange e => { s with feed := s.feed.next e }

/-- The exchange serves the connection. -/
def Linked (s : Desk) : Prop := s.feed.server.running = true ∧ s.feed.Connected s.connection

instance (s : Desk) : Decidable s.Linked := inferInstanceAs (Decidable (_ ∧ _))

/-- `handleMarketDataRequest` on the text of a request. -/
def handleText (connection : ConnectionID) (feed : MarketDataFeed) (text : Message) :
    MarketDataFeed :=
  match BinaryToMarketDataRequestConverter.convert text with
  | none => feed
  | some request => (feed.handleMarketDataRequest connection (fun _ => []) request).1

/-- The exchange once it has handled what is on its way. -/
def afterFlight (s : Desk) : MarketDataFeed := s.inFlight.foldl (handleText s.connection) s.feed

/-- While the session is active, the panel shows what the exchange has for the
connection once it has handled the requests. -/
def Agrees (s : Desk) : Prop :=
  s.session.state = .active → s.Linked → s.panel.Shows (s.afterFlight.Subscribed s.connection)

/-- What is taken for granted: the ids can stand in a header, a new connection has no
subscription left from an old one of its number, and the session of the exchange
handles what it reads. -/
def Admissible (s : Desk) : DeskEvent → Prop
  | .frame input =>
      BinaryToMarketDataRequestConverter.PlainIds input.senderCompId input.targetCompId
  | .connected =>
      ∀ symbol, ¬s.feed.Subscribed s.feed.server.nextSessionId symbol
  | .delivered ctx _ => s.Linked → ∀ text ∈ s.inFlight.head?,
      (s.feed.requestOf (.frame s.connection ctx text)).isSome
  | .exchange e =>
      (∀ r ∈ s.feed.requestOf e.event, r.1 ≠ s.connection) ∧
        match e.event with
        | .accept => s.feed.server.nextSessionId ≠ s.connection
        | _ => True
  | _ => True

/-- The user does not ask again for what is shown while the session is active and the
exchange serves it. -/
def KeepsShown (s : Desk) : DeskEvent → Prop
  | .frame input => (ConnectionPanel.lifecycle s.session input).state = .active → s.Linked →
      ¬s.panel.Repeats input.symbol input.button
  | _ => True

/-! ## What a request does -/

open BinaryToMarketDataRequestConverter ConnectionPanel

variable {panel : MarketDataState} {session : FixClientSession} {connection : ConnectionID}
  {feed feed' : MarketDataFeed} {text : Message} {first symbol : Instrument}

/-- What a session has subscribed to after a request, by what it had before. -/
def Grants (sessionId other : ConnectionID) (request : MarketDataRequest) (symbol : Instrument)
    (before : Prop) : Prop :=
  if other = sessionId ∧ request.symbols.head? = some symbol then
    request.Subscribes ∨ before ∧ ¬request.Unsubscribes
  else before

theorem subscribed_handleMarketDataRequest (feed : MarketDataFeed)
    (sessionId other : ConnectionID) (entriesOf : Instrument → List (MarketDataEntry Double))
    (request : MarketDataRequest) (symbol : Instrument) :
    (feed.handleMarketDataRequest sessionId entriesOf request).1.Subscribed other symbol ↔
      Grants sessionId other request symbol (feed.Subscribed other symbol) := by
  unfold Grants
  cases hsymbols : request.symbols with
  | nil => rw [handleMarketDataRequest_eq_self (Or.inl hsymbols), if_neg fun h => by cases h.2]
  | cons first rest =>
      have hhead : other = sessionId ∧ (first :: rest).head? = some symbol ↔
          symbol = first ∧ other = sessionId := by
        rw [List.head?_cons, Option.some.injEq, eq_comm (a := first), and_comm]
      by_cases hsubscribes : request.Subscribes
      · rw [subscribed_of_subscribes hsymbols hsubscribes, if_congr hhead rfl rfl]
        split_ifs with h
        · exact iff_of_true (Or.inr h) (Or.inl hsubscribes)
        · exact or_iff_left h
      · by_cases hunsubscribes : request.Unsubscribes
        · rw [subscribed_of_unsubscribes hsymbols hunsubscribes, if_congr hhead rfl rfl]
          split_ifs with h
          · exact iff_of_false (fun hand => hand.2 h)
              (not_or.mpr ⟨hsubscribes, fun hand => hand.2 hunsubscribes⟩)
          · exact and_iff_left h
        · rw [handleMarketDataRequest_eq_self (Or.inr ⟨hsubscribes, hunsubscribes⟩)]
          split_ifs
          · exact ⟨fun hbefore => Or.inr ⟨hbefore, hunsubscribes⟩,
              fun h => (h.resolve_left hsubscribes).1⟩
          · exact Iff.rfl

/-- What the texts come to depends on the subscriptions of the connection alone. -/
theorem subscribed_foldl_congr {texts : List Message}
    (h : ∀ symbol, feed.Subscribed connection symbol ↔ feed'.Subscribed connection symbol) :
    (texts.foldl (handleText connection) feed).Subscribed connection symbol ↔
      (texts.foldl (handleText connection) feed').Subscribed connection symbol := by
  induction texts generalizing feed feed' with
  | nil => exact h symbol
  | cons text texts ih =>
      apply ih
      intro symbol
      unfold handleText
      split
      · exact h symbol
      · rw [subscribed_handleMarketDataRequest, subscribed_handleMarketDataRequest, h]

/-- The exchange reads the call from the text. -/
def Tells (text : Message) (call : MarketDataCall) : Prop :=
  ∃ (first : Instrument) (now : Timestamp), call.symbol = first.name ∧
    convert text = some (requested first call.subscriptionRequestType now)

theorem subscribed_handleText {call : MarketDataCall} (hcall : call.Plain) (h : Tells text call)
    (symbol : Instrument) : (handleText connection feed text).Subscribed connection symbol ↔
      call.applyTo (feed.Subscribed connection) symbol := by
  obtain ⟨first, now, hname, htext⟩ := h
  have hfirst : (connection = connection ∧ (requested first call.subscriptionRequestType
      now).symbols.head? = some symbol) ↔ ¬symbol.name ≠ call.symbol := by
    rw [not_not, hname, requested, List.head?_cons, Option.some.injEq, eq_comm, and_iff_right rfl]
    exact ⟨fun h => h ▸ rfl, fun h => (MarketDataState.name_inj h).symm⟩
  have hsubscribes : (requested first call.subscriptionRequestType now).Subscribes ↔
      call.subscriptionRequestType = '1' := by
    rcases hcall.2 with htype | htype <;> rw [htype] <;>
      simp [MarketDataRequest.Subscribes, requested, subscriptionRequestTypeSnapshot,
        subscriptionRequestTypeSnapshotAndUpdates]
  have hunsubscribes : (requested first call.subscriptionRequestType now).Unsubscribes ↔
      call.subscriptionRequestType = '2' := by
    simp [MarketDataRequest.Unsubscribes, requested, subscriptionRequestTypeUnsubscribe]
  rw [handleText, htext]
  dsimp only
  rw [subscribed_handleMarketDataRequest, Grants, MarketDataCall.applyTo, hsubscribes,
    hunsubscribes]
  by_cases hother : symbol.name ≠ call.symbol
  · rw [if_neg (fun h => hfirst.mp h hother), if_pos hother]
  · rw [if_pos (hfirst.mpr hother), if_neg hother]

/-- The texts of calls do to the subscriptions what the calls say. -/
theorem subscribed_foldl {texts : List Message} {calls : List MarketDataCall}
    (hcalls : ∀ call ∈ calls, call.Plain) (h : List.Forall₂ Tells texts calls) :
    (texts.foldl (handleText connection) feed).Subscribed connection =
      calls.foldl MarketDataCall.applyTo (feed.Subscribed connection) := by
  induction h generalizing feed with
  | nil => rfl
  | @cons text call texts calls htext _ ih =>
      obtain ⟨hplain, hrest⟩ := List.forall_mem_cons.mp hcalls
      have hone : (handleText connection feed text).Subscribed connection =
          call.applyTo (feed.Subscribed connection) :=
        funext fun symbol => propext (subscribed_handleText hplain htext symbol)
      rw [List.foldl_cons, ih hrest, hone, List.foldl_cons]

/-! ## A frame while the session is active -/

/-- The session sends what it is asked to. -/
structure CanAsk (session : FixClientSession) : Prop where
  active : session.state = .active
  ids : PlainIds session.senderCompId session.targetCompId

theorem inert_of_plain {call : MarketDataCall} (h : call.Plain) :
    Wire.Inert [call.subscriptionRequestType] := by
  rcases h.2 with htype | htype <;> rw [htype] <;> exact ⟨by decide, by decide⟩

theorem CanAsk.send (h : CanAsk session) {call : MarketDataCall} (hplain : call.Plain)
    (now sendingTime : Timestamp) : ∃ session' text,
      session.sendMarketDataRequest call.symbol call.subscriptionRequestType now sendingTime =
        (session', [.doWrite text]) ∧ CanAsk session' ∧ Tells text call := by
  obtain ⟨first, hname⟩ := hplain.1
  refine ⟨_, _, if_neg fun hnot => hnot h.active, ⟨h.active, h.ids⟩, first, now, hname, ?_⟩
  rw [hname]
  exact convert_buildMessage h.ids (inert_of_plain hplain)

/-- An active session writes a text for each call, and stays active. -/
theorem CanAsk.sendCalls (h : CanAsk session) {calls : List MarketDataCall}
    (hcalls : ∀ call ∈ calls, call.Plain) (clock : Clock) :
    CanAsk (ConnectionPanel.sendCalls session calls clock).1 ∧
      List.Forall₂ Tells (ConnectionPanel.sendCalls session calls clock).2 calls := by
  induction calls generalizing session clock with
  | nil => exact ⟨h, .nil⟩
  | cons call calls ih =>
      obtain ⟨hplain, hrest⟩ := List.forall_mem_cons.mp hcalls
      obtain ⟨session', text, hsend, hcan, htext⟩ := h.send hplain (clock 0) (clock 1)
      obtain ⟨hcan', htells⟩ := ih hcan hrest fun n => clock (n + 2)
      rw [ConnectionPanel.sendCalls, hsend]
      exact ⟨hcan', .cons htext htells⟩

theorem disconnect_same (session : FixClientSession) :
    session.disconnect.1.state = .disconnected ∧
      session.disconnect.1.senderCompId = session.senderCompId ∧
      session.disconnect.1.targetCompId = session.targetCompId := by
  rw [FixClientSession.disconnect]
  split_ifs with h
  · exact ⟨h, rfl, rfl⟩
  · exact ⟨rfl, rfl, rfl⟩

theorem sendLogon_same (h : session.state = .connected) (heartbeatInterval : ℤ)
    (forceReset : Bool) (now : Timestamp) :
    (session.sendLogon heartbeatInterval forceReset now).1.state = .logonSent ∧
      (session.sendLogon heartbeatInterval forceReset now).1.senderCompId = session.senderCompId ∧
      (session.sendLogon heartbeatInterval forceReset now).1.targetCompId =
        session.targetCompId := by
  rw [sendLogon, if_neg fun hnot => hnot.1 h]
  cases forceReset with
  | false => exact ⟨rfl, rfl, rfl⟩
  | true => exact ⟨rfl, rfl, rfl⟩

theorem sendLogout_same (h : session.state = .active) (reason : Message) (now : Timestamp) :
    (session.sendLogout reason now).1.state = .loggingOut ∧
      (session.sendLogout reason now).1.senderCompId = session.senderCompId ∧
      (session.sendLogout reason now).1.targetCompId = session.targetCompId := by
  rw [sendLogout, if_pos (Or.inl h)]
  exact ⟨rfl, rfl, rfl⟩

/-- The buttons make a new session, or take the one there is a step further. -/
theorem lifecycle_cases (session : FixClientSession) (input : PanelInput) :
    (session.state = .disconnected ∧ input.connect = true ∧
      (lifecycle session input).state = .connecting ∧
      (lifecycle session input).senderCompId = input.senderCompId ∧
      (lifecycle session input).targetCompId = input.targetCompId) ∨
    (¬(session.state = .disconnected ∧ input.connect = true) ∧
      (lifecycle session input).senderCompId = session.senderCompId ∧
      (lifecycle session input).targetCompId = session.targetCompId ∧
      ((lifecycle session input).state = session.state ∨
        (lifecycle session input).state = .disconnected ∨
        session.state = .active ∧ (lifecycle session input).state = .loggingOut ∨
        session.state = .connected ∧ (lifecycle session input).state = .logonSent)) := by
  cases hstate : session.state with
  | disconnected =>
      by_cases hconnect : input.connect = true
      · exact Or.inl ⟨rfl, hconnect, by simp [lifecycle, hstate, hconnect]⟩
      · exact Or.inr ⟨fun h => hconnect h.2, by simp [lifecycle, hstate, hconnect]⟩
  | connected =>
      refine Or.inr ⟨fun h => (by cases h.1), ?_⟩
      have hlogon := sendLogon_same hstate input.heartbeatInterval input.forceReset (input.clock 0)
      by_cases hpressed : input.logon = true
      · by_cases hdisconnect : input.disconnect = true
        · simp [lifecycle, hstate, hpressed, hdisconnect, disconnect_same, hlogon]
        · simp [lifecycle, hstate, hpressed, hdisconnect, hlogon]
      · by_cases hdisconnect : input.disconnect = true
        · simp [lifecycle, hstate, hpressed, hdisconnect, disconnect_same]
        · simp [lifecycle, hstate, hpressed, hdisconnect]
  | active =>
      refine Or.inr ⟨fun h => (by cases h.1), ?_⟩
      have hlogon : (if input.logon = true then (session.sendLogon input.heartbeatInterval
          input.forceReset (input.clock 0)).1 else session) = session := by
        simp [sendLogon, hstate]
      by_cases hpressed : input.logout = true
      · by_cases hdisconnect : input.disconnect = true
        · simp [lifecycle, hstate, hpressed, hdisconnect, disconnect_same, hlogon, sendLogout_same]
        · simp [lifecycle, hstate, hpressed, hdisconnect, hlogon, sendLogout_same]
      · by_cases hdisconnect : input.disconnect = true
        · simp [lifecycle, hstate, hpressed, hdisconnect, disconnect_same, hlogon]
        · simp [lifecycle, hstate, hpressed, hdisconnect, hlogon]
  | _ =>
      refine Or.inr ⟨fun h => (by cases h.1), ?_⟩
      by_cases hdisconnect : input.disconnect = true
      · simp [lifecycle, hstate, hdisconnect, disconnect_same]
      · simp [lifecycle, hstate, hdisconnect]

/-! ## A step of the exchange -/

variable {e : FeedEvent} {event : ServerEvent}

theorem next_of_stopped (h : feed.server.running ≠ true) : feed.next e = feed := by
  have hnone : feed.requestOf e.event = none := by
    unfold requestOf
    split
    · rw [if_neg h]
    · rfl
  rw [next, MarketDataFeed.step, hnone]
  dsimp only
  rw [serverStep, if_neg h]

/-- A connection that is still open has kept its subscriptions. -/
theorem subscribed_serverStep (h : (feed.serverStep event).Connected connection)
    (symbol : Instrument) : (feed.serverStep event).Subscribed connection symbol ↔
      feed.Subscribed connection symbol := by
  rw [serverStep] at h ⊢
  split_ifs at h ⊢ with hrunning
  · cases event with
    | disconnect id =>
        have hne : connection ≠ id := by
          rintro rfl
          simp [Connected, FixServer.step, hrunning, FixServer.unregisterSession] at h
        have hid : connection.toUInt64 ≠ id.toUInt64 :=
          fun heq => hne (UInt32.toUInt64_inj.mp heq)
        simp only [Subscribed, MarketDataPublisher.mem_removeSession, ne_eq, hid, not_false_eq_true,
          and_true]
    | _ => exact Iff.rfl
  · exact Iff.rfl

theorem next_of_request {other : ConnectionID} {request : MarketDataRequest}
    (h : feed.requestOf e.event = some (other, request)) :
    feed.next e = ((feed.serverStep e.event).answer other e.entriesOf request).1 := by
  rw [next, MarketDataFeed.step, h, answer]

theorem next_of_no_request (h : feed.requestOf e.event = none) :
    feed.next e = feed.serverStep e.event := by
  rw [next, MarketDataFeed.step, h]

theorem connected_next :
    (feed.next e).Connected connection ↔ (feed.serverStep e.event).Connected connection := by
  cases hrequest : feed.requestOf e.event with
  | none => rw [next_of_no_request hrequest]
  | some r => rw [next_of_request hrequest, connected_answer]

/-- Who is served after a step was served before, unless he is new. -/
theorem linked_next (h : (feed.next e).server.running = true ∧ (feed.next e).Connected connection)
    (hnew : e.event = .accept → feed.server.nextSessionId ≠ connection) :
    feed.server.running = true ∧ feed.Connected connection := by
  by_cases hrunning : feed.server.running = true
  · refine ⟨hrunning, ?_⟩
    rcases serverStep_connected (connected_next.mp h.2) with ⟨hbefore, _⟩ | ⟨haccept, _, rfl⟩
    · exact hbefore
    · exact (hnew haccept rfl).elim
  · rwa [next_of_stopped hrunning] at h

/-- The request of another session does not touch the subscriptions. -/
theorem subscribed_next_of_other (h : (feed.next e).Connected connection)
    (hother : ∀ r ∈ feed.requestOf e.event, r.1 ≠ connection) (symbol : Instrument) :
    (feed.next e).Subscribed connection symbol ↔ feed.Subscribed connection symbol := by
  have hserver := subscribed_serverStep (connected_next.mp h) symbol
  cases hrequest : feed.requestOf e.event with
  | none => rwa [next_of_no_request hrequest]
  | some r =>
      have hne : connection ≠ r.1 := (hother r hrequest).symm
      rw [next_of_request hrequest, answer, subscribed_handleMarketDataRequest, Grants,
        if_neg fun h => hne h.1, subscribed_noteRequest, hserver]

theorem requestOf_frame {ctx : HandlerContext} {r : ConnectionID × MarketDataRequest}
    (h : feed.requestOf (.frame connection ctx text) = some r) :
    r.1 = connection ∧ convert text = some r.2 := by
  unfold requestOf at h
  split_ifs at h with hrunning
  obtain ⟨request, hrequest, rfl⟩ := Option.map_eq_some_iff.mp h
  refine ⟨rfl, ?_⟩
  unfold FixServer.receive at hrequest
  split at hrequest
  · simp [SessionEffect.marketDataRequest] at hrequest
  · split at hrequest
    · simp [SessionEffect.marketDataRequest] at hrequest
    · next manager effects hframe =>
        have heffects : effects = _ := effects_of_marketDataRequest hframe hrequest
        rw [heffects] at hrequest
        simpa [SessionEffect.marketDataRequest] using hrequest

theorem subscribed_read {ctx : HandlerContext}
    {entriesOf : Instrument → List (MarketDataEntry Double)}
    (h : (read connection feed text ctx entriesOf).Connected connection)
    (hhandled : (feed.requestOf (.frame connection ctx text)).isSome) (symbol : Instrument) :
    (read connection feed text ctx entriesOf).Subscribed connection symbol ↔
      (handleText connection feed text).Subscribed connection symbol := by
  obtain ⟨⟨other, request⟩, hrequest⟩ := Option.isSome_iff_exists.mp hhandled
  obtain ⟨rfl, htext⟩ := requestOf_frame hrequest
  have hserver := subscribed_serverStep (connected_next.mp h) symbol
  rw [read, next_of_request hrequest, answer, handleText, htext,
    subscribed_handleMarketDataRequest, subscribed_handleMarketDataRequest, subscribed_noteRequest,
    hserver]

/-! ## Whole runs -/

/-- The invariant of the runs in which the panel shows the truth. -/
structure Sound (s : Desk) : Prop where
  named : s.panel.Named
  ids : s.pending = true ∨ s.session.state ≠ .disconnected →
    PlainIds s.session.senderCompId s.session.targetCompId
  pending : s.pending = true → s.session.state = .connecting ∨ s.session.state = .disconnected
  /-- Before the logon is accepted there is no subscription. -/
  early : s.pending = true ∨ s.session.state = .connecting ∨ s.session.state = .connected ∨
    s.session.state = .logonSent → s.panel.status ≠ .subscribed
  shows : s.session.state = .connected ∨ s.session.state = .logonSent ∨
    s.session.state = .active → s.Linked → s.panel.Shows (s.afterFlight.Subscribed s.connection)

variable {s : Desk}

theorem Sound.start (session : FixClientSession) (feed : MarketDataFeed) :
    (start session feed).Sound where
  named := ⟨.eurusd, rfl⟩
  ids := by simp [Desk.start]
  pending h := by cases h
  early := by simp [Desk.start]
  shows := by simp [Desk.start]

theorem Sound.agrees (h : s.Sound) : s.Agrees :=
  fun hactive => h.shows (Or.inr (Or.inr hactive))

theorem Sound.frame_active (h : s.Sound) {input : PanelInput}
    (hactive : (lifecycle s.session input).state = .active) :
    (s.KeepsShown (.frame input) → (s.step (.frame input)).Sound) ∧
      ((s.step (.frame input)).Agrees → s.KeepsShown (.frame input)) := by
  have hbefore : s.session.state = .active ∧
      (lifecycle s.session input).senderCompId = s.session.senderCompId ∧
      (lifecycle s.session input).targetCompId = s.session.targetCompId := by
    rcases lifecycle_cases s.session input with ⟨_, _, hstate, _⟩ | ⟨_, hsender, htarget, hstate⟩
    · rw [hstate] at hactive
      cases hactive
    · rw [hactive] at hstate
      rcases hstate with hstate | hstate | ⟨_, hstate⟩ | ⟨_, hstate⟩
      · exact ⟨hstate.symm, hsender, htarget⟩
      all_goals cases hstate
  obtain ⟨hstate, hsender, htarget⟩ := hbefore
  have hcan : CanAsk (lifecycle s.session input) := by
    refine ⟨hactive, ?_⟩
    rw [hsender, htarget]
    exact h.ids (Or.inr (by rw [hstate]; decide))
  have hpending : s.pending = false := by
    by_contra hpending
    have hearly := h.pending (Bool.not_eq_false _ ▸ hpending)
    rw [hstate] at hearly
    simp at hearly
  let calls := marketData s.panel .active input.symbol input.button
  let sent := ConnectionPanel.sendCalls (lifecycle s.session input) calls.2
    fun n => input.clock (n + 2)
  obtain ⟨hnamed, hplain⟩ : calls.1.Named ∧ ∀ call ∈ calls.2, call.Plain :=
    plain_marketData h.named
  obtain ⟨hcan', htells⟩ : CanAsk sent.1 ∧ List.Forall₂ Tells sent.2 calls.2 :=
    hcan.sendCalls hplain _
  have hstep : s.step (.frame input) = { s with
      panel := calls.1
      session := sent.1
      pending := false
      inFlight := s.inFlight ++ sent.2 } := by
    rw [Desk.step, render, hactive]
    simp [hpending, hstate, calls, sent]
  have hsubscribed : (s.step (.frame input)).afterFlight.Subscribed s.connection =
      calls.2.foldl MarketDataCall.applyTo (s.afterFlight.Subscribed s.connection) := by
    rw [hstep, afterFlight, List.foldl_append]
    exact subscribed_foldl hplain htells
  have hleaves (hlinked : s.Linked) : Leaves (s.panel.Repeats input.symbol input.button)
      (s.afterFlight.Subscribed s.connection) calls :=
    leaves_marketData (h.shows (Or.inr (Or.inr hstate)) hlinked)
  constructor
  · intro hkeeps
    refine ⟨?_, fun _ => ?_, ?_, ?_, fun _ hlinked => ?_⟩
    · rw [hstep]
      exact hnamed
    · rw [hstep]
      exact hcan'.ids
    · simp [hstep]
    · simp [hstep, hcan'.active]
    · have hlinked : s.Linked := by rwa [hstep] at hlinked
      have hshows := (hleaves hlinked).1 (hkeeps hactive hlinked)
      rw [← hsubscribed] at hshows
      rwa [hstep] at hshows ⊢
  · intro hagrees _ hlinked hrepeats
    have hstale := (hleaves hlinked).2 hrepeats
    have hshows : calls.1.Shows ((s.step (.frame input)).afterFlight.Subscribed s.connection) := by
      rw [hstep] at hagrees ⊢
      exact hagrees hcan'.active hlinked
    rw [hsubscribed] at hshows
    exact hstale.not_shows hnamed hshows

theorem Sound.frame_idle (h : s.Sound) {input : PanelInput}
    (hids : PlainIds input.senderCompId input.targetCompId)
    (hactive : (lifecycle s.session input).state ≠ .active) : (s.step (.frame input)).Sound := by
  let calls := marketData s.panel (lifecycle s.session input).state input.symbol input.button
  obtain ⟨hnone, hstatus⟩ : calls.2 = [] ∧ (calls.1.status = .subscribed →
      s.panel.status = .subscribed ∧ (lifecycle s.session input).state ≠ .disconnected ∧
        (lifecycle s.session input).state ≠ .connecting) := marketData_idle hactive
  have hnamed : calls.1.Named := (plain_marketData h.named).1
  have hstep : s.step (.frame input) = { s with
      panel := calls.1
      session := lifecycle s.session input
      pending := s.pending || s.session.state = .disconnected && input.connect
      inFlight := s.inFlight ++ [] } := by
    have hrender : render s.panel s.session input = (calls.1, ConnectionPanel.sendCalls
        (lifecycle s.session input) calls.2 fun n => input.clock (n + 2)) := rfl
    rw [Desk.step, hrender, hnone]
    rfl
  rw [hstep, List.append_nil]
  rcases lifecycle_cases s.session input with
    ⟨hdown, hconnect, hstate, hsender, htarget⟩ | ⟨hnot, hsender, htarget, hstate⟩
  · have hidle : calls.1.status ≠ .subscribed := fun hagain => (hstatus hagain).2.2 hstate
    refine ⟨hnamed, fun _ => ?_, fun _ => Or.inl hstate, fun _ => hidle, fun hup => ?_⟩
    · rw [hsender, htarget]
      exact hids
    · simp [hstate] at hup
  · have hpending :
        (s.pending || s.session.state = .disconnected && input.connect) = s.pending := by
      rw [Bool.or_eq_left_iff_imp]
      intro hboth
      exact (hnot (by simpa using hboth)).elim
    rw [hpending]
    refine ⟨hnamed, fun hup => ?_, fun hup => ?_, fun hup hagain => ?_, fun hup hlinked => ?_⟩
    · rw [hsender, htarget]
      apply h.ids
      rcases hup with hup | hup
      · exact Or.inl hup
      · refine Or.inr fun hdown => ?_
        simp [hdown, hup] at hstate
    · have hearly := h.pending hup
      grind
    · apply h.early _ (hstatus hagain).1
      grind
    · have hearly : s.session.state = .connected ∨ s.session.state = .logonSent := by
        grind
      have hnone : s.panel.status ≠ .subscribed := h.early (Or.inr (Or.inr hearly))
      have hshows := h.shows (hearly.imp_right Or.inl) hlinked
      exact MarketDataState.shows_of_none (fun hagain => hnone (hstatus hagain).1)
        (hshows.none hnone)

theorem Sound.connected (h : s.Sound)
    (hfresh : ∀ symbol, ¬s.feed.Subscribed s.feed.server.nextSessionId symbol) :
    (s.step .connected).Sound := by
  unfold Desk.step
  dsimp only
  split_ifs with hpending
  · refine ⟨h.named, fun _ => h.ids (Or.inl hpending), fun hnow => (by cases hnow),
      fun _ => h.early (Or.inl hpending), fun _ hlinked => ?_⟩
    apply MarketDataState.shows_of_none (h.early (Or.inl hpending))
    intro symbol hsubscribed
    exact hfresh symbol ((subscribed_serverStep hlinked.2 symbol).mp hsubscribed)
  · exact h

theorem Sound.logonAccepted (h : s.Sound) : (s.step .logonAccepted).Sound := by
  unfold Desk.step
  dsimp only
  split_ifs with hstate
  · have hnot : s.pending ≠ true := by
      intro hpending
      have hearly := h.pending hpending
      rw [hstate] at hearly
      simp at hearly
    refine ⟨h.named, fun _ => h.ids (Or.inr (by rw [hstate]; decide)), fun hnow => (hnot hnow).elim,
      ?_, fun _ => h.shows (Or.inr (Or.inl hstate))⟩
    rintro (hnow | hnow)
    · exact (hnot hnow).elim
    · simp [handleLogonResponse, changeState] at hnow
  · exact h

theorem Sound.dropped (h : s.Sound) : (s.step .dropped).Sound := by
  obtain ⟨hstate, _, _⟩ := disconnect_same s.session
  refine ⟨h.named, ?_, fun hnow => (by cases hnow), ?_, ?_⟩
  · simp [Desk.step, hstate]
  · simp [Desk.step, hstate]
  · simp [Desk.step, hstate]

theorem Sound.delivered (h : s.Sound) {ctx : HandlerContext}
    {entriesOf : Instrument → List (MarketDataEntry Double)}
    (hhandled : s.Linked → ∀ text ∈ s.inFlight.head?,
      (s.feed.requestOf (.frame s.connection ctx text)).isSome) :
    (s.step (.delivered ctx entriesOf)).Sound := by
  unfold Desk.step
  dsimp only
  split
  · exact h
  · next text rest hflight =>
      refine ⟨h.named, h.ids, h.pending, h.early, fun hup hlinked => ?_⟩
      have hbefore : s.Linked := linked_next hlinked fun hnow => by cases hnow
      have hshows := h.shows hup hbefore
      rw [afterFlight, hflight] at hshows
      refine hshows.congr fun symbol => subscribed_foldl_congr fun symbol => ?_
      exact subscribed_read hlinked.2 (hhandled hbefore text (by rw [hflight]; rfl)) symbol

theorem Sound.exchange (h : s.Sound)
    (hother : ∀ r ∈ s.feed.requestOf e.event, r.1 ≠ s.connection)
    (hnew : e.event = .accept → s.feed.server.nextSessionId ≠ s.connection) :
    (s.step (.exchange e)).Sound := by
  refine ⟨h.named, h.ids, h.pending, h.early, fun hup hlinked => ?_⟩
  have hbefore : s.Linked := linked_next hlinked hnew
  refine (h.shows hup hbefore).congr fun symbol => subscribed_foldl_congr fun symbol => ?_
  exact subscribed_next_of_other hlinked.2 hother symbol

theorem Sound.step (h : s.Sound) {event : DeskEvent} (hok : s.Admissible event) :
    (s.KeepsShown event → (s.step event).Sound) ∧
      ((s.step event).Agrees → s.KeepsShown event) := by
  cases event with
  | frame input =>
      by_cases hactive : (lifecycle s.session input).state = .active
      · exact h.frame_active hactive
      · exact ⟨fun _ => h.frame_idle hok hactive, fun _ hnow => (hactive hnow).elim⟩
  | connected => exact ⟨fun _ => h.connected hok, fun _ => trivial⟩
  | logonAccepted => exact ⟨fun _ => h.logonAccepted, fun _ => trivial⟩
  | dropped => exact ⟨fun _ => h.dropped, fun _ => trivial⟩
  | delivered ctx entriesOf => exact ⟨fun _ => h.delivered hok, fun _ => trivial⟩
  | exchange e =>
      refine ⟨fun _ => h.exchange hok.1 fun haccept => ?_, fun _ => trivial⟩
      have hnew := hok.2
      rwa [haccept] at hnew

/-- While a session is active and served, the panel shows as subscribed exactly what
the exchange has for it once it has handled the requests on their way, in the runs in
which the user never asks again for what is shown; the first time that he does, it is
wrong. -/
theorem panel_agrees_iff (session : FixClientSession) (feed : MarketDataFeed)
    (events : List DeskEvent)
    (hok : TotalRun.Meets Desk.step Admissible (Desk.start session feed) events) :
    TotalRun.Always Desk.step Agrees (Desk.start session feed) events ↔
      TotalRun.Meets Desk.step KeepsShown (Desk.start session feed) events :=
  TotalRun.always_iff_meets_of (fun _ h => h.agrees) (fun _ _ h hok => h.step hok)
    (Sound.start session feed) hok

namespace Sample

instance (senderCompId targetCompId : Message) : Decidable (PlainIds senderCompId targetCompId) :=
  decidable_of_iff ((soh ∉ senderCompId ∧ '=' ∉ senderCompId) ∧ soh ∉ targetCompId ∧
    '=' ∉ targetCompId)
    ⟨fun h => ⟨⟨h.1.1, h.1.2⟩, h.2.1, h.2.2⟩,
      fun h => ⟨⟨h.1.soh, h.1.equals⟩, h.2.soh, h.2.equals⟩⟩

instance (s : Desk) : ∀ event, Decidable (s.Admissible event)
  | .frame input => inferInstanceAs (Decidable (PlainIds input.senderCompId input.targetCompId))
  | .connected => decidable_of_iff
      (∀ symbol ∈ Instrument.all, ¬s.feed.Subscribed s.feed.server.nextSessionId symbol)
      ⟨fun h symbol => h symbol symbol.mem_all, fun h symbol _ => h symbol⟩
  | .logonAccepted => .isTrue trivial
  | .dropped => .isTrue trivial
  | .delivered ctx _ => inferInstanceAs (Decidable (s.Linked → ∀ text ∈ s.inFlight.head?,
      (s.feed.requestOf (.frame s.connection ctx text)).isSome))
  | .exchange ⟨.accept, _⟩ => inferInstanceAs (Decidable (_ ∧ _ ≠ _))
  | .exchange ⟨.frame .., _⟩ => inferInstanceAs (Decidable (_ ∧ True))
  | .exchange ⟨.malformed .., _⟩ => inferInstanceAs (Decidable (_ ∧ True))
  | .exchange ⟨.disconnect _, _⟩ => inferInstanceAs (Decidable (_ ∧ True))
  | .exchange ⟨.outbound _, _⟩ => inferInstanceAs (Decidable (_ ∧ True))
  | .exchange ⟨.loadConfig _, _⟩ => inferInstanceAs (Decidable (_ ∧ True))

instance (panel : MarketDataState) : ∀ (chosen : Option Instrument) (pressed : Bool),
    Decidable (panel.Repeats chosen pressed)
  | none, pressed => inferInstanceAs (Decidable (panel.status = .subscribed ∧ pressed = true))
  | some symbol, _ => inferInstanceAs
      (Decidable (panel.status = .subscribed ∧ panel.symbol = symbol.name))

instance (s : Desk) : ∀ event, Decidable (s.KeepsShown event)
  | .frame input => inferInstanceAs (Decidable
      ((lifecycle s.session input).state = .active → s.Linked →
        ¬s.panel.Repeats input.symbol input.button))
  | .connected => .isTrue trivial
  | .logonAccepted => .isTrue trivial
  | .dropped => .isTrue trivial
  | .delivered _ _ => .isTrue trivial
  | .exchange _ => .isTrue trivial

/-- A frame in which nothing is pressed. -/
def idle : PanelInput where
  connect := false
  logon := false
  logout := false
  disconnect := false
  symbol := none
  button := false
  senderCompId := "C1".toList
  targetCompId := "BETA_EXCHANGE".toList
  heartbeatInterval := 30
  forceReset := false
  seqStore := ⟨1, 1⟩
  clock := fun _ => 0

def noSession : FixClientSession := ⟨[], [], .disconnected, ⟨1, 1⟩, false⟩

def atExchange (event : ServerEvent) : DeskEvent := .exchange ⟨event, fun _ => []⟩

/-- The client connects, logs on and subscribes. -/
def events : List DeskEvent :=
  [atExchange (.loadConfig ["C1"]), .frame { idle with connect := true }, .connected,
    .frame { idle with logon := true }, atExchange (.frame 1 (FixServer.Sample.ctx 0)
      (FixServer.Sample.logon "C1")), .logonAccepted, .frame { idle with button := true },
    .delivered (FixServer.Sample.ctx 0) fun _ => []]

end Sample

/-- The panel shows the truth until the user presses `Unsubscribe`. -/
theorem panel_agrees_iff_sample :
    TotalRun.Always Desk.step Agrees (Desk.start Sample.noSession (MarketDataFeed.start none))
        Sample.events ∧
      ¬TotalRun.Always Desk.step Agrees (Desk.start Sample.noSession (MarketDataFeed.start none))
        (Sample.events ++ [.frame { Sample.idle with button := true }]) := by
  constructor
  · exact (panel_agrees_iff _ _ _ (by decide +kernel)).mpr (by decide +kernel)
  · exact fun h => absurd ((panel_agrees_iff _ _ _ (by decide +kernel)).mp h) (by decide +kernel)

end Desk

end BetaTrader
