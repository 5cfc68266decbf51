import BetaTrader.Client.SessionCalls
import BetaTrader.Exchange.HeaderText
import BetaTrader.Exchange.Logons
import BetaTrader.Lib.Run

/-!
# The client's numbers at the server

A client and the session manager of a server, with the messages that are on their
way.  The client counts what it sends in its store, the server counts what it has
accepted, and the two meet in the numbers of the messages.
-/

namespace BetaTrader

/-! ## The manager of one client -/

namespace FixSessionManager

variable {manager manager' : FixSessionManager} {sessionId : ConnectionID} {compId : String}
  {n : UInt32}

/-- All connections are those of one client, who is logged on as soon as there is one,
and the client's last number is `n`. -/
structure Serves (manager : FixSessionManager) (compId : String) (n : UInt32) : Prop where
  mapped : ∀ sessionId name, manager.connectionToCompId sessionId = some name →
    name = compId ∧ ∃ state, manager.sessionStates compId = some state ∧ state.isLoggedOn = true
  number : (manager.stateOf compId).inSeqNum = n
  name : (manager.stateOf compId).senderCompId = compId

theorem Serves.of_state (state : SessionState) (hstate : manager.sessionStates compId = some state)
    (hlogged : state.isLoggedOn = true) (hn : state.inSeqNum = n)
    (hname : state.senderCompId = compId)
    (hmapped : ∀ sessionId name, manager.connectionToCompId sessionId = some name →
      name = compId) :
    manager.Serves compId n := by
  have hstateOf : manager.stateOf compId = state := by rw [stateOf, hstate, Option.getD_some]
  exact ⟨fun sessionId name hmap => ⟨hmapped sessionId name hmap, state, hstate, hlogged⟩,
    by rw [hstateOf, hn], by rw [hstateOf, hname]⟩

theorem Serves.state_eq (h : manager.Serves compId n) {state : SessionState}
    (hstate : manager.sessionStates compId = some state) :
    state.inSeqNum = n ∧ state.senderCompId = compId := by
  have hstateOf : manager.stateOf compId = state := by rw [stateOf, hstate, Option.getD_some]
  exact ⟨hstateOf ▸ h.number, hstateOf ▸ h.name⟩

theorem Serves.useNextOutboundSequence (h : manager.Serves compId n) (sessionId : ConnectionID) :
    (manager.useNextOutboundSequence sessionId).2.Serves compId n ∧
      (manager.useNextOutboundSequence sessionId).2.connectionToCompId =
        manager.connectionToCompId := by
  cases hmap : manager.connectionToCompId sessionId with
  | none =>
      simp only [FixSessionManager.useNextOutboundSequence, hmap]
      exact ⟨h, trivial⟩
  | some name =>
      obtain ⟨rfl, state, hstate, hlogged⟩ := h.mapped sessionId name hmap
      simp only [FixSessionManager.useNextOutboundSequence, hmap, hstate]
      refine ⟨?_, rfl⟩
      obtain ⟨hn, hname⟩ := h.state_eq hstate
      exact .of_state { state with outSeqNum := state.outSeqNum + 1 } (Function.update_self ..)
        hlogged hn hname fun other name' hother => (h.mapped other name' hother).1

/-- The next number of a connection is accepted and counted. -/
theorem Serves.validateSequence (h : manager.Serves compId n)
    (hmap : (manager.connectionToCompId sessionId).isSome = true) :
    (manager.validateSequence sessionId (n + 1)).1 = true ∧
      (manager.validateSequence sessionId (n + 1)).2.Serves compId (n + 1) ∧
      (manager.validateSequence sessionId (n + 1)).2.connectionToCompId =
        manager.connectionToCompId ∧
      (manager.validateSequence sessionId (n + 1)).2.validClients = manager.validClients := by
  obtain ⟨name, hmap⟩ := Option.isSome_iff_exists.mp hmap
  obtain ⟨rfl, state, hstate, hlogged⟩ := h.mapped sessionId name hmap
  obtain ⟨hn, hname⟩ := h.state_eq hstate
  simp only [FixSessionManager.validateSequence, hmap, hstate, hlogged, Bool.not_true,
    Bool.false_eq_true, if_false, hn, if_true]
  refine ⟨trivial, ?_, rfl, rfl⟩
  exact .of_state ⟨true, n + 1, state.outSeqNum, state.senderCompId⟩ (Function.update_self ..) rfl
    rfl hname fun other name' hother => (h.mapped other name' hother).1

theorem Serves.authenticate (h : manager.Serves compId n) (sessionId : ConnectionID)
    (hvalid : manager.validClients compId = true) :
    (manager.authenticate sessionId compId).2.Serves compId n ∧
      (manager.authenticate sessionId compId).2.connectionToCompId =
        Function.update manager.connectionToCompId sessionId (some compId) ∧
      (manager.authenticate sessionId compId).2.validClients = manager.validClients := by
  simp only [FixSessionManager.authenticate, hvalid, if_true]
  refine ⟨?_, rfl, rfl⟩
  refine .of_state { manager.stateOf compId with isLoggedOn := true } (Function.update_self ..) rfl
    h.number h.name fun other name hother => ?_
  by_cases heq : other = sessionId
  · have hself : some compId = some name := by simpa [heq, setState] using hother
    exact (Option.some.inj hself).symm
  · have hold : manager.connectionToCompId other = some name := by
      simpa [heq, setState] using hother
    exact (h.mapped other name hold).1

end FixSessionManager

/-- What `validateSequence` returns in `handleFixMessage`; `none` where it is not called. -/
def FixSession.sequenceCheck (manager : FixSessionManager) (sessionId : ConnectionID)
    (fixMessage : Message) : Option Bool :=
  match msgType fixMessage, msgSeqNum fixMessage with
  | some msgType, some msgSeqNum =>
      if msgType = 'A' then
        if manager.validClients (String.ofList (senderCompId fixMessage)) then
          some ((accepted manager sessionId fixMessage).validateSequence sessionId msgSeqNum).1
        else none
      else if msgType = '5' then none
      else if isLoggedOn manager sessionId then
        some (manager.validateSequence sessionId msgSeqNum).1
      else none
  | _, _ => none

/-- The messages among the effects of the server's session. -/
def SessionEffect.writes (effects : List SessionEffect) : List Message :=
  effects.filterMap fun
    | .doWrite text => some text
    | _ => none

/-! ## A message of the client -/

namespace FixSession

open OutboundMessageBuilder

variable {ctx : HandlerContext} {manager : FixSessionManager} {sessionId : ConnectionID}
  {fixMessage : Message} {compId : String} {n : UInt32}

/-- The client would answer this message. -/
def Asks (text : Message) : Prop := msgType text = some '1' ∨ msgType text = some '2'

theorem not_asks_buildMessage {c : Char} (hc : c ∈ ['A', '0', 'j']) {targetCompId : Message}
    (htarget : soh ∉ targetCompId) (body : List (ℕ × Message))
    (hbody : ∀ f ∈ body, f.1 ≠ 35 ∧ f.1 < 2 ^ 31 ∧ soh ∉ f.2) (msgSeqNum : UInt32)
    (now : Timestamp) :
    ¬Asks (buildMessage "BETA_EXCHANGE".toList targetCompId msgSeqNum [c] (ofFields body) now) := by
  simp only [List.mem_cons, List.not_mem_nil, or_false] at hc
  have hsoh : c ≠ soh := by rcases hc with rfl | rfl | rfl <;> decide
  rw [Asks, msgType_buildMessage hsoh (by decide) htarget hbody]
  rcases hc with rfl | rfl | rfl <;> decide

theorem not_asks_heartbeat {targetCompId testReqId : Message} (htarget : soh ∉ targetCompId)
    (htest : soh ∉ testReqId) (msgSeqNum : UInt32) (now : Timestamp) :
    ¬Asks (buildHeartbeat "BETA_EXCHANGE".toList targetCompId msgSeqNum testReqId now) := by
  rw [buildHeartbeat]
  split_ifs
  · exact not_asks_buildMessage (by decide) htarget [] (by simp) msgSeqNum now
  · exact not_asks_buildMessage (by decide) htarget [(112, testReqId)] (by simpa using htest)
      msgSeqNum now

theorem soh_notMem_getD (pat s : Message) : soh ∉ (Text.between pat soh s).getD [] := by
  cases h : Text.between pat soh s with
  | none => exact List.not_mem_nil
  | some value => exact Text.notMem_of_between h

theorem soh_notMem_targetCompId (h : manager.Serves compId n) (hcompId : soh ∉ compId.toList)
    (sessionId : ConnectionID) : soh ∉ targetCompId manager sessionId := by
  unfold targetCompId
  split
  · exact List.not_mem_nil
  · next state hstate =>
      obtain ⟨name, hmap, hstate⟩ := Option.bind_eq_some_iff.mp hstate
      obtain ⟨rfl, _⟩ := h.mapped sessionId name hmap
      rwa [(h.state_eq hstate).2]

/-- What the dispatched message does to the manager, and what is answered. -/
theorem dispatch_serves (ctx : HandlerContext) (sessionId : ConnectionID) (fixMessage : Message)
    (h : manager.Serves compId n) (hcompId : soh ∉ compId.toList) (c : Char) (msgSeqNum : UInt32) :
    (dispatch ctx manager sessionId fixMessage c msgSeqNum).1.Serves compId n ∧
      (dispatch ctx manager sessionId fixMessage c msgSeqNum).1.connectionToCompId =
        manager.connectionToCompId ∧
      ∀ text ∈ SessionEffect.writes (dispatch ctx manager sessionId fixMessage c msgSeqNum).2,
        ¬Asks text := by
  have hquiet : manager.Serves compId n ∧
      manager.connectionToCompId = manager.connectionToCompId ∧
        ∀ text ∈ ([] : List Message), ¬Asks text := ⟨h, rfl, by simp⟩
  obtain ⟨hnext, hmapping⟩ := h.useNextOutboundSequence sessionId
  unfold dispatch
  split_ifs
  · refine ⟨hnext, hmapping, fun text htext => ?_⟩
    obtain rfl := List.mem_singleton.mp htext
    exact not_asks_heartbeat (soh_notMem_getD _ _) (soh_notMem_getD _ _) _ _
  · unfold handleNewOrderSingle
    split
    · exact hquiet
    · refine ⟨hnext, hmapping, fun text htext => ?_⟩
      obtain rfl := List.mem_singleton.mp htext
      refine not_asks_buildMessage (by decide) (soh_notMem_targetCompId h hcompId sessionId)
        [(45, Decimal.natText msgSeqNum.toNat), (372, ['D']), (379, Decimal.natText 5),
          (58, "Invalid NewOrderSingle".toList)] ?_ _ _
      have hdigits (k : ℕ) : soh ∉ Decimal.natText k := FixUtils.notMem_natText (by decide) k
      simp only [List.forall_mem_cons, List.not_mem_nil, false_imp_iff, implies_true, and_true]
      exact ⟨⟨by decide, by decide, hdigits _⟩, by decide, ⟨by decide, by decide, hdigits 5⟩,
        by decide⟩
  · unfold handleCancelOrderRequest
    split
    · exact hquiet
    · split_ifs <;> exact hquiet
  · unfold handleModifyOrderRequest
    split
    · exact hquiet
    · split_ifs <;> exact hquiet
  · exact hquiet
  · exact hquiet

/-- The message is not a Logout, has the number, and comes from the client. -/
structure SentBy (senderId : Message) (msgSeqNum : UInt32) (fixMessage : Message) : Prop where
  type : ∃ c, msgType fixMessage = some c ∧ c ≠ '5'
  number : FixSession.msgSeqNum fixMessage = some msgSeqNum
  sender : senderCompId fixMessage = senderId

/-- What has become of the manager of the client `compId` when the session has handled
a message numbered `n`. -/
structure Served (manager : FixSessionManager) (sessionId : ConnectionID) (compId : String)
    (n : UInt32) (r : FixSessionManager × List SessionEffect) : Prop where
  serves : r.1.Serves compId n
  mapping : r.1.connectionToCompId =
    Function.update manager.connectionToCompId sessionId (some compId)
  validClients : r.1.validClients = manager.validClients
  answers : ∀ text ∈ SessionEffect.writes r.2, ¬Asks text

theorem validClients_useNextOutboundSequence (manager : FixSessionManager)
    (sessionId : ConnectionID) :
    (manager.useNextOutboundSequence sessionId).2.validClients = manager.validClients := by
  unfold FixSessionManager.useNextOutboundSequence
  split
  · rfl
  · split <;> rfl

theorem validClients_dispatch {c : Char} {msgSeqNum : UInt32} :
    (dispatch ctx manager sessionId fixMessage c msgSeqNum).1.validClients =
      manager.validClients := by
  unfold dispatch
  split_ifs
  · exact validClients_useNextOutboundSequence manager sessionId
  · unfold handleNewOrderSingle
    split
    · rfl
    · exact validClients_useNextOutboundSequence manager sessionId
  · rfl
  · rfl
  · rfl
  · rfl

/-- A Logon of a valid client with the next number. -/
theorem handleLogon_serves {senderId : Message} (h : manager.Serves (String.ofList senderId) n)
    (hvalid : manager.validClients (String.ofList senderId) = true) (hsender : soh ∉ senderId)
    (hsent : SentBy senderId (n + 1) fixMessage) (htype : msgType fixMessage = some 'A') :
    Served manager sessionId (String.ofList senderId) (n + 1)
        (handleLogon ctx manager sessionId fixMessage (n + 1)) ∧
      sequenceCheck manager sessionId fixMessage = some true := by
  obtain ⟨hauth, hmapping, hvalidClients⟩ := h.authenticate sessionId hvalid
  have hmapped : ((manager.authenticate sessionId (String.ofList senderId)).2.connectionToCompId
      sessionId).isSome = true := by rw [hmapping, Function.update_self, Option.isSome_some]
  obtain ⟨htrue, hserves, hmapping', hvalidClients'⟩ := hauth.validateSequence hmapped
  obtain ⟨hnext, hmapping''⟩ := hserves.useNextOutboundSequence sessionId
  have hfst : (manager.authenticate sessionId (String.ofList senderId)).1 = true := by
    rw [FixSessionManager.authenticate_fst, hvalid]
  constructor
  · simp only [handleLogon, hsent.sender, hfst, Bool.not_true, Bool.false_eq_true, if_false]
    refine ⟨hnext, hmapping''.trans (hmapping'.trans hmapping),
      (validClients_useNextOutboundSequence _ _).trans (hvalidClients'.trans hvalidClients),
      fun text htext => ?_⟩
    obtain rfl := List.mem_singleton.mp htext
    exact not_asks_buildMessage (by decide) hsender [(98, ['0']), (108, Decimal.intText 30)]
      (by decide) _ _
  · simp only [sequenceCheck, htype, hsent.number, hsent.sender, hvalid, if_true, accepted, htrue]

/-- Any other message with the next number, on a connection that has logged on. -/
theorem handleMessage_serves {senderId : Message} (h : manager.Serves (String.ofList senderId) n)
    (hsender : soh ∉ senderId) {c : Char} (htype : msgType fixMessage = some c) (hlogon : c ≠ 'A')
    (hlogout : c ≠ '5') (hn : msgSeqNum fixMessage = some (n + 1))
    (hmap : (manager.connectionToCompId sessionId).isSome = true) :
    Served manager sessionId (String.ofList senderId) (n + 1)
        (handleFixMessage ctx manager sessionId fixMessage c) ∧
      sequenceCheck manager sessionId fixMessage = some true := by
  obtain ⟨htrue, hserves, hmapping, hvalidClients⟩ := h.validateSequence hmap
  obtain ⟨name, hname⟩ := Option.isSome_iff_exists.mp hmap
  obtain ⟨rfl, state, hstate, hlogged⟩ := h.mapped sessionId name hname
  have hlogged' : isLoggedOn manager sessionId = true := by
    simp only [isLoggedOn, FixSessionManager.getSessionState, hname, Option.bind_some, hstate,
      hlogged]
  have hcompId : soh ∉ (String.ofList senderId).toList := by rwa [String.toList_ofList]
  obtain ⟨hdispatch, hmapping', hanswers⟩ :=
    dispatch_serves ctx sessionId fixMessage hserves hcompId c (n + 1)
  constructor
  · simp only [handleFixMessage, hn, hlogon, hlogout, hlogged', if_false, if_true]
    refine ⟨hdispatch, ?_, validClients_dispatch.trans hvalidClients, hanswers⟩
    rw [hmapping', hmapping, Function.update_eq_self_iff.mpr hname.symm]
  · simp only [sequenceCheck, htype, hn, hlogon, hlogout, hlogged', if_false, if_true, htrue]

/-- A message that comes in order is accepted. -/
theorem handleFrame_serves (ctx : HandlerContext) {senderId : Message}
    (h : manager.Serves (String.ofList senderId) n)
    (hvalid : manager.validClients (String.ofList senderId) = true) (hsender : soh ∉ senderId)
    (hsent : SentBy senderId (n + 1) fixMessage)
    (hgate : msgType fixMessage = some 'A' ∨
      (manager.connectionToCompId sessionId).isSome = true) :
    ∃ r, handleFrame ctx manager sessionId fixMessage = some r ∧
      Served manager sessionId (String.ofList senderId) (n + 1) r ∧
      sequenceCheck manager sessionId fixMessage = some true := by
  obtain ⟨c, htype, hlogout⟩ := hsent.type
  cases hframe : handleFrame ctx manager sessionId fixMessage with
  | none => exact absurd htype (msgType_ne_of_handleFrame hframe c)
  | some r =>
      rcases handleFrame_type hframe with ⟨hnone, _⟩ | ⟨c', htype', rfl⟩
      · exact absurd (hnone.symm.trans htype) nofun
      · obtain rfl := Option.some.inj (htype'.symm.trans htype)
        refine ⟨_, rfl, ?_⟩
        by_cases hlogon : c' = 'A'
        · subst hlogon
          rw [handleFixMessage, hsent.number]
          exact handleLogon_serves h hvalid hsender hsent htype
        · have hmap := hgate.resolve_left fun hA =>
            hlogon (Option.some.inj (htype.symm.trans hA))
          exact handleMessage_serves h hsender htype hlogon hlogout hsent.number hmap

end FixSession

structure SequenceLink where
  client : FixClientSession
  /-- The number that the server has given to the connection of the client. -/
  sessionId : ConnectionID
  manager : FixSessionManager
  toServer : List (ConnectionID × Message)
  /-- What the server has written to the connection. -/
  toClient : List Message
  /-- For each message that has arrived, what `validateSequence` returned. -/
  checks : List (Option Bool)
  /-- No exception has ended a process. -/
  running : Bool

inductive LinkEvent where
  | connect
  /-- The connection is there, and the server accepts it. -/
  | connected
  | connectFailed
  | sendLogon (heartbeatInterval : ℤ) (forceReset : Bool) (now : Timestamp)
  | sendLogout (reason : Message) (now : Timestamp)
  | sendMessage (msgType bodyStr : Message) (now : Timestamp)
  | heartbeat (now : Timestamp)
  | disconnect
  /-- A message arrives at the server. -/
  | serve (ctx : HandlerContext)
  /-- The client reads a message. -/
  | read (ctx : ReadContext)

namespace SequenceLink

/-- A client whose store agrees with what the server has stored. -/
def start (client : FixClientSession) (seqRepo : Option SequenceRepository)
    (validClients : List String) : SequenceLink :=
  let manager := (FixSessionManager.empty seqRepo).loadConfig validClients
  { client := { client with
      state := .disconnected
      seqStore := ⟨1, (manager.stateOf (String.ofList client.senderCompId)).inSeqNum + 1⟩ }
    sessionId := 0
    manager := manager
    toServer := []
    toClient := []
    checks := []
    running := true }

/-- There is a socket to write to. -/
def HasSocket (s : SequenceLink) : Prop :=
  s.client.state ≠ .disconnected ∧ s.client.state ≠ .connecting

instance (s : SequenceLink) : Decidable s.HasSocket := inferInstanceAs (Decidable (_ ∧ _))

/-- A call of the client; what it writes without a socket is lost. -/
def call (s : SequenceLink) (client : FixClientSession) (written : List Message) : SequenceLink :=
  { s with
    client := client
    toServer := s.toServer ++ if s.HasSocket then written.map (Prod.mk s.sessionId) else [] }

def serve (s : SequenceLink) (ctx : HandlerContext) : SequenceLink :=
  match s.toServer with
  | [] => s
  | (sessionId, fixMessage) :: toServer =>
      match FixSession.handleFrame ctx s.manager sessionId fixMessage with
      | none => { s with running := false }
      | some (manager, effects) =>
          { s with
            manager := manager
            toServer := toServer
            toClient := s.toClient ++
              if sessionId = s.sessionId then SessionEffect.writes effects else []
            checks := s.checks ++ [FixSession.sequenceCheck s.manager sessionId fixMessage] }

def read (s : SequenceLink) (ctx : ReadContext) : SequenceLink :=
  match s.toClient with
  | [] => s
  | msgStr :: toClient =>
      if s.HasSocket then
        match FixClientSession.handleProtocolMessage ctx s.client msgStr with
        | none => { s with running := false }
        | some (client, effects) =>
            { s.call client (ReadEffect.writes effects) with toClient := toClient }
      else s

def step (s : SequenceLink) (event : LinkEvent) : SequenceLink :=
  if s.running then
    match event with
    | .connect => { s with client := (s.client.changeState .connecting).1 }
    | .connected =>
        if s.client.state = .connecting then
          { s with
            client := (s.client.changeState .connected).1
            sessionId := s.sessionId + 1
            toClient := [] }
        else s
    | .connectFailed =>
        if s.client.state = .connecting then
          { s with client := (s.client.changeState .disconnected).1 }
        else s
    | .sendLogon heartbeatInterval forceReset now =>
        let r := s.client.sendLogon heartbeatInterval forceReset now
        s.call r.1 (ReadEffect.writes r.2)
    | .sendLogout reason now =>
        let r := s.client.sendLogout reason now
        s.call r.1 (ReadEffect.writes r.2)
    | .sendMessage msgType bodyStr now =>
        let r := s.client.sendMessage msgType bodyStr now
        s.call r.1 (FixClientEffect.messages r.2)
    | .heartbeat now =>
        let r := s.client.sendHeartbeat now
        s.call r.1 (ReadEffect.writes r.2)
    | .disconnect => { s with client := s.client.disconnect.1 }
    | .serve ctx => s.serve ctx
    | .read ctx => s.read ctx
  else s

/-- The server has accepted the number of every message that has arrived. -/
def Validated (s : SequenceLink) : Prop := ∀ check ∈ s.checks, check = some true

/-- The call keeps the two in step.  A logon is sent over a connection, by a valid
client whose CompIDs do not hide the number, and it resets the numbers only if the next
one is the first anyway; nothing but a Logout has the type `5`, and no Logout is sent. -/
def KeepsCount (s : SequenceLink) : LinkEvent → Prop
  | .sendLogon _ forceReset _ => s.client.state ≠ .disconnected ∧
      (s.client.state = .connected →
        s.manager.validClients (String.ofList s.client.senderCompId) = true ∧
          OutboundMessageBuilder.ReadableIds s.client.senderCompId s.client.targetCompId ∧
          (forceReset = true → s.client.seqStore.outSeqNum = 1))
  | .sendLogout _ _ => s.client.state ≠ .active ∧ s.client.state ≠ .logonSent
  | .sendMessage msgType bodyStr now => s.client.state = .active →
      OutboundMessageBuilder.ReadableType msgType ∧
        ∃ c, FixSession.msgType (OutboundMessageBuilder.buildMessage s.client.senderCompId
          s.client.targetCompId s.client.seqStore.outSeqNum msgType bodyStr now) = some c ∧ c ≠ '5'
  | _ => True

/-! ## The numbers on their way -/

/-- The messages have the numbers from the one behind `n` on, and each is a Logon or
goes over a connection that has logged on; the next number is the last argument. -/
inductive InFlight (senderId : Message) (mapped : ConnectionID → Prop) :
    UInt32 → List (ConnectionID × Message) → UInt32 → Prop where
  | nil (n : UInt32) : InFlight senderId mapped n [] (n + 1)
  | cons {n next : UInt32} {sessionId : ConnectionID} {fixMessage : Message}
      {behind : List (ConnectionID × Message)}
      (sent : FixSession.SentBy senderId (n + 1) fixMessage)
      (gate : FixSession.msgType fixMessage = some 'A' ∨ mapped sessionId)
      (rest : InFlight senderId mapped (n + 1) behind next) :
      InFlight senderId mapped n ((sessionId, fixMessage) :: behind) next

variable {senderId : Message} {mapped mapped' : ConnectionID → Prop} {n next : UInt32}
  {messages : List (ConnectionID × Message)}

theorem InFlight.concat (h : InFlight senderId mapped n messages next) {sessionId : ConnectionID}
    {fixMessage : Message} (hsent : FixSession.SentBy senderId next fixMessage)
    (hgate : FixSession.msgType fixMessage = some 'A' ∨ mapped sessionId) :
    InFlight senderId mapped n (messages ++ [(sessionId, fixMessage)]) (next + 1) := by
  induction h with
  | nil n => exact .cons hsent hgate (.nil (n + 1))
  | cons sent gate _ ih => exact .cons sent gate (ih hsent)

theorem InFlight.mono (h : InFlight senderId mapped n messages next)
    (hmapped : ∀ sessionId, mapped sessionId → mapped' sessionId) :
    InFlight senderId mapped' n messages next := by
  induction h with
  | nil n => exact .nil n
  | cons sent gate _ ih => exact .cons sent (gate.imp_right (hmapped _)) ih

/-- The connection has logged on. -/
def Mapped (s : SequenceLink) (sessionId : ConnectionID) : Prop :=
  (s.manager.connectionToCompId sessionId).isSome = true

/-- The client is one that a Logon succeeds for. -/
structure Admissible (s : SequenceLink) : Prop where
  valid : s.manager.validClients (String.ofList s.client.senderCompId) = true
  ids : OutboundMessageBuilder.ReadableIds s.client.senderCompId s.client.targetCompId

/-- The invariant: the server's number, the messages on their way and the client's
number follow each other. -/
structure InStep (s : SequenceLink) : Prop where
  validated : s.Validated
  numbers : ∃ n, s.manager.Serves (String.ofList s.client.senderCompId) n ∧
    InFlight s.client.senderCompId s.Mapped n s.toServer s.client.seqStore.outSeqNum
  admissible : s.toServer ≠ [] ∨ (∃ sessionId, s.Mapped sessionId) → s.Admissible
  answers : ∀ text ∈ s.toClient, ¬FixSession.Asks text ∧
    (FixSession.msgType text = some 'A' → s.Mapped s.sessionId)
  active : s.client.state = .active → s.Mapped s.sessionId

variable {s : SequenceLink} {client : FixClientSession}

theorem call_nil (s : SequenceLink) (client : FixClientSession) :
    s.call client [] = { s with client := client } := by
  simp [call]

/-- The client changes, and sends nothing. -/
theorem InStep.idle (h : s.InStep) (hsender : client.senderCompId = s.client.senderCompId)
    (htarget : client.targetCompId = s.client.targetCompId)
    (hout : client.seqStore.outSeqNum = s.client.seqStore.outSeqNum)
    (hactive : client.state = .active → s.Mapped s.sessionId) :
    InStep { s with client := client } where
  validated := h.validated
  numbers := by
    dsimp only
    rw [hsender, hout]
    exact h.numbers
  admissible := by
    intro hready
    obtain ⟨hvalid, hids⟩ := h.admissible hready
    exact ⟨hsender ▸ hvalid, hsender ▸ htarget ▸ hids⟩
  answers := h.answers
  active := hactive

/-- Another connection, or other messages from the server. -/
theorem InStep.channel (h : s.InStep) {sessionId : ConnectionID} {toClient : List Message}
    {running : Bool} (hanswers : ∀ text ∈ toClient, ¬FixSession.Asks text ∧
      (FixSession.msgType text = some 'A' → s.Mapped sessionId))
    (hactive : s.client.state = .active → s.Mapped sessionId) : InStep { s with
      sessionId := sessionId
      toClient := toClient
      running := running } where
  validated := h.validated
  numbers := h.numbers
  admissible := fun hready => ⟨(h.admissible hready).valid, (h.admissible hready).ids⟩
  answers := hanswers
  active := hactive

/-- The client sends a message with its next number. -/
theorem InStep.send (h : s.InStep) (hsocket : s.HasSocket) (hadmissible : s.Admissible)
    (hsender : client.senderCompId = s.client.senderCompId)
    (htarget : client.targetCompId = s.client.targetCompId)
    (hout : client.seqStore.outSeqNum = s.client.seqStore.outSeqNum + 1)
    (hactive : client.state = .active → s.client.state = .active) {fixMessage : Message}
    (hsent : FixSession.SentBy s.client.senderCompId s.client.seqStore.outSeqNum fixMessage)
    (hgate : FixSession.msgType fixMessage = some 'A' ∨ s.Mapped s.sessionId) :
    (s.call client [fixMessage]).InStep where
  validated := h.validated
  numbers := by
    obtain ⟨n, hserves, hflight⟩ := h.numbers
    refine ⟨n, hsender ▸ hserves, ?_⟩
    simp only [call, if_pos hsocket, List.map_cons, List.map_nil, hsender, hout]
    exact hflight.concat hsent hgate
  admissible := fun _ => ⟨hsender ▸ hadmissible.valid, hsender ▸ htarget ▸ hadmissible.ids⟩
  answers := h.answers
  active := fun hstate => h.active (hactive hstate)

/-! ## The calls of the client -/

section Calls

open OutboundMessageBuilder

variable {msgType bodyStr : Message} {msgSeqNum : UInt32} {now : Timestamp}

theorem sentBy_buildMessage (hids : ReadableIds s.client.senderCompId s.client.targetCompId)
    (htype : ReadableType msgType) (hc : ∃ c, FixSession.msgType (buildMessage
      s.client.senderCompId s.client.targetCompId msgSeqNum msgType bodyStr now) = some c ∧
        c ≠ '5') :
    FixSession.SentBy s.client.senderCompId msgSeqNum (buildMessage s.client.senderCompId
      s.client.targetCompId msgSeqNum msgType bodyStr now) :=
  ⟨hc, msgSeqNum_buildMessage hids htype bodyStr now,
    senderCompId_buildMessage hids.sender htype s.client.targetCompId bodyStr msgSeqNum now⟩

theorem buildLogon_eq (senderCompId targetCompId : Message) (heartbeatInterval : ℤ) :
    buildLogon senderCompId targetCompId msgSeqNum heartbeatInterval now =
      buildMessage senderCompId targetCompId msgSeqNum ['A']
        (ofFields [(98, ['0']), (108, Decimal.intText heartbeatInterval)]) now := rfl

/-- The logon is read as one, with or without the reset flag. -/
theorem logonMessage_sent (hids : ReadableIds s.client.senderCompId s.client.targetCompId)
    (msgSeqNum : UInt32) (heartbeatInterval : ℤ) (forceReset : Bool) (now : Timestamp) :
    FixSession.SentBy s.client.senderCompId msgSeqNum
        (s.client.logonMessage msgSeqNum heartbeatInterval forceReset now) ∧
      FixSession.msgType (s.client.logonMessage msgSeqNum heartbeatInterval forceReset now) =
        some 'A' := by
  have hinterval : soh ∉ Decimal.intText heartbeatInterval := (Plain.intText _).soh_notMem
  have hA : ReadableType ['A'] := readableType_singleton (by decide)
  have hlogon {body : List (ℕ × Message)}
      (hbody : ∀ f ∈ body, f.1 ≠ 35 ∧ f.1 < 2 ^ 31 ∧ soh ∉ f.2) :
      FixSession.SentBy s.client.senderCompId msgSeqNum (buildMessage s.client.senderCompId
        s.client.targetCompId msgSeqNum ['A'] (ofFields body) now) ∧
      FixSession.msgType (buildMessage s.client.senderCompId s.client.targetCompId msgSeqNum ['A']
        (ofFields body) now) = some 'A' := by
    have htype := msgType_buildMessage (c := 'A') (by decide) hids.sender hids.target hbody
      msgSeqNum now
    exact ⟨sentBy_buildMessage hids hA ⟨'A', htype, by decide⟩, htype⟩
  unfold FixClientSession.logonMessage
  dsimp only
  split_ifs
  · apply hlogon
    simp only [List.forall_mem_cons, List.not_mem_nil, false_imp_iff, implies_true, and_true]
    exact ⟨⟨by decide, by decide, by decide⟩, ⟨by decide, by decide, hinterval⟩, by decide⟩
  · rw [buildLogon_eq]
    apply hlogon
    simp only [List.forall_mem_cons, List.not_mem_nil, false_imp_iff, implies_true, and_true]
    exact ⟨⟨by decide, by decide, by decide⟩, by decide, by decide, hinterval⟩

theorem InStep.sendLogon (h : s.InStep) (heartbeatInterval : ℤ) (forceReset : Bool)
    (now : Timestamp) (hkeeps : s.KeepsCount (.sendLogon heartbeatInterval forceReset now)) :
    (s.call (s.client.sendLogon heartbeatInterval forceReset now).1
      (ReadEffect.writes (s.client.sendLogon heartbeatInterval forceReset now).2)).InStep := by
  obtain ⟨hnot, hconnected⟩ := hkeeps
  by_cases hstate : s.client.state = .connected
  · obtain ⟨hvalid, hids, hreset⟩ := hconnected hstate
    have hsocket : s.HasSocket := by rw [HasSocket, hstate]; decide
    obtain ⟨hsent, htype⟩ := logonMessage_sent hids s.client.seqStore.outSeqNum
      heartbeatInterval forceReset now
    rw [FixClientSession.sendLogon_eq hstate hreset]
    refine h.send hsocket ⟨hvalid, hids⟩ ?_ ?_ ?_ ?_ hsent (Or.inl htype)
    · rfl
    · rfl
    · rfl
    · exact nofun
  · have hsame : s.client.sendLogon heartbeatInterval forceReset now = (s.client, []) := by
      rw [FixClientSession.sendLogon, if_pos ⟨hstate, hnot⟩]
    rw [hsame]
    exact call_nil s s.client ▸ h

theorem InStep.sendMessage (h : s.InStep)
    (hkeeps : s.KeepsCount (.sendMessage msgType bodyStr now)) :
    (s.call (s.client.sendMessage msgType bodyStr now).1
      (FixClientEffect.messages (s.client.sendMessage msgType bodyStr now).2)).InStep := by
  by_cases hstate : s.client.state = .active
  · obtain ⟨htype, hc⟩ := hkeeps hstate
    have hmapped := h.active hstate
    have hadmissible := h.admissible (Or.inr ⟨_, hmapped⟩)
    have hsocket : s.HasSocket := by rw [HasSocket, hstate]; decide
    rw [FixClientSession.sendMessage, if_neg (by simpa using hstate)]
    refine h.send hsocket hadmissible ?_ ?_ ?_ ?_
      (sentBy_buildMessage hadmissible.ids htype hc) (Or.inr hmapped)
    · rfl
    · rfl
    · rfl
    · exact fun hactive => hactive
  · have hsame : s.client.sendMessage msgType bodyStr now = (s.client, []) := by
      rw [FixClientSession.sendMessage, if_pos hstate]
    rw [hsame]
    exact call_nil s s.client ▸ h

theorem InStep.sendHeartbeat (h : s.InStep) (now : Timestamp) :
    (s.call (s.client.sendHeartbeat now).1
      (ReadEffect.writes (s.client.sendHeartbeat now).2)).InStep := by
  by_cases hstate : s.client.state = .active
  · have hmapped := h.active hstate
    have hadmissible := h.admissible (Or.inr ⟨_, hmapped⟩)
    have hsocket : s.HasSocket := by rw [HasSocket, hstate]; decide
    have htype : FixSession.msgType (buildMessage s.client.senderCompId s.client.targetCompId
        s.client.seqStore.outSeqNum ['0'] (ofFields []) now) = some '0' :=
      msgType_buildMessage (by decide) hadmissible.ids.sender hadmissible.ids.target (by simp)
        s.client.seqStore.outSeqNum now
    rw [FixClientSession.sendHeartbeat, if_pos hstate]
    refine h.send hsocket hadmissible ?_ ?_ ?_ ?_ (sentBy_buildMessage hadmissible.ids
      (readableType_singleton (by decide)) ⟨'0', htype, by decide⟩) (Or.inr hmapped)
    · rfl
    · rfl
    · rfl
    · exact fun hactive => hactive
  · have hsame : s.client.sendHeartbeat now = (s.client, []) := by
      rw [FixClientSession.sendHeartbeat, if_neg hstate]
    rw [hsame]
    exact call_nil s s.client ▸ h

theorem InStep.sendLogout (h : s.InStep) {reason : Message}
    (hkeeps : s.KeepsCount (.sendLogout reason now)) :
    (s.call (s.client.sendLogout reason now).1
      (ReadEffect.writes (s.client.sendLogout reason now).2)).InStep := by
  have hsame : s.client.sendLogout reason now = (s.client, []) := by
    rw [FixClientSession.sendLogout, if_neg (by simpa [KeepsCount] using hkeeps)]
  rw [hsame]
  exact call_nil s s.client ▸ h

end Calls

/-! ## What arrives -/

theorem InStep.serve (h : s.InStep) (ctx : HandlerContext) :
    (s.serve ctx).InStep ∧ (s.serve ctx).running = s.running := by
  unfold SequenceLink.serve
  split
  · exact ⟨h, rfl⟩
  · next sessionId fixMessage toServer hqueue =>
      obtain ⟨hvalid, hids⟩ := h.admissible (Or.inl (by simp [hqueue]))
      obtain ⟨n, hserves, hflight⟩ := h.numbers
      rw [hqueue] at hflight
      cases hflight with
      | cons hsent hgate hrest =>
          obtain ⟨r, hframe, hserved, hcheck⟩ :=
            FixSession.handleFrame_serves ctx hserves hvalid hids.sender hsent hgate
          have hmapped : ∀ other, s.Mapped other →
              (r.1.connectionToCompId other).isSome = true := by
            intro other hother
            rw [hserved.mapping]
            by_cases heq : other = sessionId
            · simp [heq]
            · rwa [Function.update_of_ne heq]
          have hnow : (r.1.connectionToCompId sessionId).isSome = true := by
            rw [hserved.mapping, Function.update_self, Option.isSome_some]
          simp only [hframe]
          refine ⟨⟨fun check hcheckmem => ?_, ⟨n + 1, hserved.serves, ?_⟩, fun _ => ?_,
            fun text htext => ?_, fun hactive => hmapped _ (h.active hactive)⟩, trivial⟩
          · rcases List.mem_append.mp hcheckmem with hold | hnew
            · exact h.validated check hold
            · rw [List.mem_singleton.mp hnew, hcheck]
          · exact hrest.mono hmapped
          · exact ⟨hserved.validClients ▸ hvalid, hids⟩
          · rcases List.mem_append.mp htext with hold | hnew
            · obtain ⟨hasks, hlogon⟩ := h.answers text hold
              exact ⟨hasks, fun htype => hmapped _ (hlogon htype)⟩
            · split_ifs at hnew with hsession
              · exact ⟨hserved.answers text hnew, fun _ => hsession ▸ hnow⟩
              · exact absurd hnew List.not_mem_nil

theorem InStep.read (h : s.InStep) (ctx : ReadContext) : (s.read ctx).InStep := by
  unfold SequenceLink.read
  split
  · exact h
  · next msgStr toClient hqueue =>
      obtain ⟨hasks, hlogon⟩ := h.answers msgStr (by simp [hqueue])
      split_ifs
      · split
        · exact h.channel h.answers h.active
        · next client effects hread =>
            have hpassive := FixClientSession.passive_handleProtocolMessage hread ?_
            · have hidle := h.idle hpassive.senderCompId hpassive.targetCompId hpassive.outSeqNum
                fun hactive => (hpassive.active hactive).elim h.active hlogon
              have hwrites : ReadEffect.writes effects = [] := hpassive.writes
              rw [hwrites, call_nil]
              refine hidle.channel (fun text htext => ?_) hidle.active
              exact h.answers text (by rw [hqueue]; exact List.mem_cons_of_mem _ htext)
            · intro map c hmap hc
              have htype : FixSession.msgType msgStr = some c := by
                rw [FixSession.msgType, hmap]
                exact hc
              constructor
              · rintro rfl
                exact hasks (Or.inl htype)
              · rintro rfl
                exact hasks (Or.inr htype)
      · exact h

/-! ## Runs -/

theorem InStep.step (h : s.InStep) {event : LinkEvent} (hkeeps : s.KeepsCount event) :
    (s.step event).InStep := by
  unfold SequenceLink.step
  by_cases hrunning : s.running = true
  · rw [if_pos hrunning]
    cases event with
    | connect => exact h.idle rfl rfl rfl nofun
    | connected =>
        dsimp only
        split_ifs
        · have hidle : InStep { s with client := (s.client.changeState .connected).1 } :=
            h.idle rfl rfl rfl nofun
          exact hidle.channel (by simp) nofun
        · exact h
    | connectFailed =>
        dsimp only
        split_ifs
        · exact h.idle rfl rfl rfl nofun
        · exact h
    | sendLogon heartbeatInterval forceReset now => exact h.sendLogon _ _ now hkeeps
    | sendLogout reason now => exact h.sendLogout hkeeps
    | sendMessage msgType bodyStr now => exact h.sendMessage hkeeps
    | heartbeat now => exact h.sendHeartbeat now
    | disconnect =>
        have hpassive := FixClientSession.passive_disconnect s.client none
        exact h.idle hpassive.senderCompId hpassive.targetCompId hpassive.outSeqNum
          fun hactive => (hpassive.active hactive).elim h.active nofun
    | serve ctx => exact (h.serve ctx).1
    | read ctx => exact h.read ctx
  · rw [if_neg hrunning]
    exact h

theorem inStep_start (client : FixClientSession) (seqRepo : Option SequenceRepository)
    (validClients : List String) : (start client seqRepo validClients).InStep where
  validated := by simp [start, Validated]
  numbers := by
    refine ⟨_, ⟨fun sessionId name hmap => absurd hmap nofun, rfl, rfl⟩, .nil _⟩
  admissible := by
    rintro (hne | ⟨sessionId, hmapped⟩)
    · exact absurd rfl hne
    · exact absurd hmapped nofun
  answers := by simp [start]
  active := nofun

/-- As long as every call keeps the count, the server accepts the number of every
message that arrives. -/
theorem numbers_accepted {client : FixClientSession} {seqRepo : Option SequenceRepository}
    {validClients : List String} {events : List LinkEvent}
    (h : TotalRun.Meets step KeepsCount (start client seqRepo validClients) events) :
    TotalRun.Always step Validated (start client seqRepo validClients) events :=
  TotalRun.always_of_meets InStep (fun _ hs => hs.validated) (fun _ _ hs hkeeps => hs.step hkeeps)
    (inStep_start client seqRepo validClients) h

namespace Sample

def session : FixClientSession where
  senderCompId := "C1".toList
  targetCompId := "BETA_EXCHANGE".toList
  state := .disconnected
  seqStore := ⟨1, 1⟩
  hasOrderIntentCallback := false

def ctx : HandlerContext := { nextId := 1, orderIdOf := fun _ => none, now := 0, utcOffset := 0 }

def readCtx : ReadContext := { now := 0, utcOffset := 0, unsetSymbol := none }

/-- The client connects, logs on, and the server answers. -/
def logon : List LinkEvent :=
  [.connect, .connected, .sendLogon 30 false 0, .serve ctx, .read readCtx]

/-- It logs out, and logs on again. -/
def relogon : List LinkEvent :=
  logon ++ [.sendLogout [] 0, .serve ctx, .read readCtx] ++ logon

theorem readableIds : OutboundMessageBuilder.ReadableIds session.senderCompId
    session.targetCompId := by
  constructor <;> decide

end Sample

theorem numbers_accepted_sample :
    TotalRun.Always step Validated (start Sample.session none ["C1"]) Sample.logon := by
  apply numbers_accepted
  refine ⟨trivial, trivial, ⟨by decide, fun _ => ⟨by decide, Sample.readableIds, nofun⟩⟩, trivial,
    trivial, trivial⟩

/-- The number of a Logout is not counted, so the next Logon has the wrong one. -/
theorem logon_after_logout_refused :
    ¬TotalRun.Always step Validated (start Sample.session none ["C1"]) Sample.relogon := by
  intro h
  have hchecks : (Sample.relogon.foldl step (start Sample.session none ["C1"])).checks =
      [some true, none, some false] := by decide +kernel
  have hlast := h.last
  rw [Validated, hchecks] at hlast
  exact absurd (hlast (some false) (by simp)) (by decide)

end SequenceLink

end BetaTrader
