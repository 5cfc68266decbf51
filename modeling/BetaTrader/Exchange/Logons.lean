import BetaTrader.Exchange.SessionSpec

/-!
# Who is logged on

The session manager has a flag for each `CompID` and, for each connection, the
`CompID` it has been accepted under.  Beside the server stands what its connections
have done: the `CompID`s that each has logged on as since it last logged out.
-/

namespace BetaTrader

namespace FixSessionManager

variable {manager manager' : FixSessionManager} {sessionId : ConnectionID} {compId : String}

/-- The flag `isLoggedOn` of a `CompID`; one without a state is not logged on. -/
def flag (manager : FixSessionManager) (compId : String) : Bool :=
  (manager.sessionStates compId).any SessionState.isLoggedOn

/-- Flags and mappings are as before. -/
structure SameLogons (manager manager' : FixSessionManager) : Prop where
  mapping : manager'.connectionToCompId = manager.connectionToCompId
  flag : manager'.flag = manager.flag

theorem SameLogons.refl (manager : FixSessionManager) : manager.SameLogons manager := ⟨rfl, rfl⟩

theorem SameLogons.trans {manager'' : FixSessionManager} (h : manager.SameLogons manager')
    (h' : manager'.SameLogons manager'') : manager.SameLogons manager'' :=
  ⟨h'.mapping.trans h.mapping, h'.flag.trans h.flag⟩

theorem flag_setState (state : SessionState) : (manager.setState compId state).flag =
    Function.update manager.flag compId state.isLoggedOn := by
  funext other
  by_cases h : other = compId
  · simp [h, flag, setState]
  · simp [flag, setState, Function.update_of_ne h]

/-- Numbers may change freely. -/
theorem sameLogons_setState {state : SessionState} (state' : SessionState)
    (hstate : manager.sessionStates compId = some state)
    (hflag : state'.isLoggedOn = state.isLoggedOn) :
    manager.SameLogons (manager.setState compId state') := by
  refine ⟨rfl, ?_⟩
  rw [flag_setState, Function.update_eq_self_iff, flag, hstate]
  exact hflag

theorem sameLogons_validateSequence (n : UInt32) :
    manager.SameLogons (manager.validateSequence sessionId n).2 := by
  unfold validateSequence
  split
  · exact .refl manager
  · split
    · exact .refl manager
    · next state hstate =>
        split_ifs
        · exact .refl manager
        · have hsame := sameLogons_setState { state with inSeqNum := n } hstate rfl
          exact ⟨hsame.mapping, hsame.flag⟩
        · exact .refl manager

theorem sameLogons_useNextOutboundSequence (manager : FixSessionManager)
    (sessionId : ConnectionID) :
    manager.SameLogons (manager.useNextOutboundSequence sessionId).2 := by
  unfold useNextOutboundSequence
  split
  · exact .refl manager
  · split
    · exact .refl manager
    · next state hstate =>
        have hsame := sameLogons_setState
          { state with outSeqNum := state.outSeqNum + 1 } hstate rfl
        exact ⟨hsame.mapping, hsame.flag⟩

theorem flag_handleLogout (manager : FixSessionManager) (sessionId : ConnectionID) :
    (manager.handleLogout sessionId).flag = fun compId =>
    if manager.connectionToCompId sessionId = some compId then false else manager.flag compId := by
  funext other
  unfold handleLogout
  split
  · next hnone => simp [hnone]
  · next compId hcompId =>
      have hfound : manager.connectionToCompId sessionId = some other ↔ other = compId := by
        rw [hcompId, Option.some.injEq, eq_comm]
      split
      · next hnone =>
          split_ifs with hother
          · rw [hfound.mp hother, flag, hnone]
            rfl
          · rfl
      · rw [flag_setState]
        split_ifs with hother
        · rw [hfound.mp hother, Function.update_self]
        · rw [Function.update_of_ne fun heq => hother (hfound.mpr heq)]

theorem mapping_handleLogout :
    (manager.handleLogout sessionId).connectionToCompId = manager.connectionToCompId := by
  unfold handleLogout
  split
  · rfl
  · split <;> rfl

theorem flag_authenticate (hvalid : manager.validClients compId = true) :
    (manager.authenticate sessionId compId).2.flag =
      Function.update manager.flag compId true := by
  simp only [authenticate, hvalid, if_true]
  exact flag_setState _

theorem mapping_authenticate (hvalid : manager.validClients compId = true) :
    (manager.authenticate sessionId compId).2.connectionToCompId =
      Function.update manager.connectionToCompId sessionId (some compId) := by
  simp only [authenticate, hvalid, if_true]
  rfl

end FixSessionManager

namespace FixSession

variable {ctx : HandlerContext} {manager : FixSessionManager} {sessionId : ConnectionID}
  {fixMessage : Message} {r : FixSessionManager × List SessionEffect}

/-! ## What a frame does to the logons -/

/-- A Logout that is processed. -/
def isLogout (fixMessage : Message) : Bool :=
  msgType fixMessage = some '5' ∧ (msgSeqNum fixMessage).isSome

/-- A Logon that is processed and accepted, with its `CompID`. -/
def acceptedLogon (manager : FixSessionManager) (fixMessage : Message) : Option String :=
  if msgType fixMessage = some 'A' ∧ (msgSeqNum fixMessage).isSome ∧
      manager.validClients (String.ofList (senderCompId fixMessage)) then
    some (String.ofList (senderCompId fixMessage))
  else none

/-- The effects on the trading core: commands and market data requests. -/
def SubmitsNothing (effects : List SessionEffect) : Prop :=
  ∀ effect ∈ effects, (∀ command, effect ≠ .submitCommand command) ∧
    ∀ fixMessage, effect ≠ .handleMarketDataRequest fixMessage

theorem commands_eq_nil {effects : List SessionEffect} (h : SubmitsNothing effects) :
    SessionEffect.commands effects = [] := by
  induction effects with
  | nil => rfl
  | cons effect effects ih =>
      have hrest : SubmitsNothing effects :=
        fun other hother => h other (List.mem_cons_of_mem _ hother)
      cases effect with
      | submitCommand command => exact absurd rfl ((h _ List.mem_cons_self).1 command)
      | _ => exact ih hrest

/-- What a frame does to flags and mappings, and that only a session that is logged
on hands something to the trading core. -/
inductive FrameLogons (manager : FixSessionManager) (sessionId : ConnectionID)
    (fixMessage : Message) (r : FixSessionManager × List SessionEffect) : Prop where
  | logout (h : isLogout fixMessage = true)
      (mapping : r.1.connectionToCompId =
        Function.update manager.connectionToCompId sessionId none)
      (flag : r.1.flag = fun compId =>
        if manager.connectionToCompId sessionId = some compId then false else manager.flag compId)
      (submits : SubmitsNothing r.2)
  | logon {compId : String} (h : acceptedLogon manager fixMessage = some compId)
      (notLogout : isLogout fixMessage = false)
      (mapping : r.1.connectionToCompId =
        Function.update manager.connectionToCompId sessionId (some compId))
      (flag : r.1.flag = Function.update manager.flag compId true)
      (submits : SubmitsNothing r.2)
  | other (notLogout : isLogout fixMessage = false)
      (notLogon : acceptedLogon manager fixMessage = none) (same : manager.SameLogons r.1)
      (submits : isLoggedOn manager sessionId = true ∨ SubmitsNothing r.2)

theorem handleFrame_type (h : handleFrame ctx manager sessionId fixMessage = some r) :
    (msgType fixMessage = none ∧
      r = sendReject ctx manager sessionId 0 "Missing MsgType (Tag 35)") ∨
    ∃ c, msgType fixMessage = some c ∧ r = handleFixMessage ctx manager sessionId fixMessage c := by
  obtain ⟨fields, hfields, h⟩ := Option.bind_eq_some_iff.mp h
  have htype : msgType fixMessage = (fields.get .msgType).bind List.head? := by
    rw [msgType, hfields, Option.bind_some]
  split at h
  · next c _ hget => exact Or.inr ⟨c, by rw [htype, hget]; rfl, (Option.some.inj h).symm⟩
  · next hget =>
      refine Or.inl ⟨?_, (Option.some.inj h).symm⟩
      rw [htype]
      cases hvalue : fields.get .msgType with
      | none => rfl
      | some value =>
          cases value with
          | nil => rfl
          | cons c rest => exact absurd hvalue (hget c rest)

theorem submitsNothing_of_forall {effects : List SessionEffect}
    (h : ∀ effect ∈ effects, effect = .close ∨ (∃ compId, effect = .authenticated compId) ∨
      ∃ message, effect = .doWrite message) : SubmitsNothing effects := by
  intro effect heffect
  rcases h effect heffect with rfl | ⟨compId, rfl⟩ | ⟨message, rfl⟩
  · exact ⟨fun _ => nofun, fun _ => nofun⟩
  · exact ⟨fun _ => nofun, fun _ => nofun⟩
  · exact ⟨fun _ => nofun, fun _ => nofun⟩

theorem sameLogons_buildNext (build : UInt32 → Timestamp → Message) :
    manager.SameLogons (buildNext ctx manager sessionId build).1 :=
  FixSessionManager.sameLogons_useNextOutboundSequence manager sessionId

theorem sameLogons_dispatch {c : Char} {n : UInt32} :
    manager.SameLogons (dispatch ctx manager sessionId fixMessage c n).1 := by
  unfold dispatch
  split_ifs
  · exact sameLogons_buildNext _
  · unfold handleNewOrderSingle
    split
    · exact .refl manager
    · exact sameLogons_buildNext _
  · exact .refl manager
  · exact .refl manager
  · exact .refl manager
  · exact .refl manager

theorem handleLogon_logons (hlogout : isLogout fixMessage = false)
    (htype : msgType fixMessage = some 'A') {n : UInt32} (hn : msgSeqNum fixMessage = some n) :
    FrameLogons manager sessionId fixMessage (handleLogon ctx manager sessionId fixMessage n) := by
  obtain ⟨logout, logonAck, heq⟩ := handleLogon_eq ctx manager sessionId fixMessage n
  rw [heq]
  split_ifs with hvalid
  · have hsame := (FixSessionManager.sameLogons_validateSequence n).trans
      (FixSessionManager.sameLogons_useNextOutboundSequence
        ((accepted manager sessionId fixMessage).validateSequence sessionId n).2 sessionId)
    have haccepted : acceptedLogon manager fixMessage =
        some (String.ofList (senderCompId fixMessage)) := by
      simp [acceptedLogon, htype, hn, hvalid]
    refine .logon haccepted hlogout ?_ ?_ ?_
    · exact hsame.mapping.trans (FixSessionManager.mapping_authenticate hvalid)
    · exact hsame.flag.trans (FixSessionManager.flag_authenticate hvalid)
    · exact submitsNothing_of_forall (by simp)
  · refine .other hlogout (by simp [acceptedLogon, hvalid]) (.refl manager) (Or.inr ?_)
    exact submitsNothing_of_forall (by simp)

theorem handleLogout_logons (hlogout : isLogout fixMessage = true) :
    FrameLogons manager sessionId fixMessage (handleLogout ctx manager sessionId fixMessage) := by
  have hsame := FixSessionManager.sameLogons_useNextOutboundSequence manager sessionId
  refine .logout hlogout ?_ ?_ (submitsNothing_of_forall (by simp [handleLogout]))
  · simp only [handleLogout, FixSessionManager.cleanupConnection,
      FixSessionManager.mapping_handleLogout, hsame.mapping]
  · refine (FixSessionManager.flag_handleLogout
      (manager.useNextOutboundSequence sessionId).2 sessionId).trans ?_
    rw [hsame.mapping, hsame.flag]

/-- What a frame does to the logons. -/
theorem handleFrame_logons (h : handleFrame ctx manager sessionId fixMessage = some r) :
    FrameLogons manager sessionId fixMessage r := by
  rcases handleFrame_type h with ⟨htype, rfl⟩ | ⟨c, htype, rfl⟩
  · refine .other (by simp [isLogout, htype]) (by simp [acceptedLogon, htype])
      (sameLogons_buildNext _) (Or.inr (submitsNothing_of_forall ?_))
    simp [sendReject, buildNext]
  · cases hn : msgSeqNum fixMessage with
    | none =>
        rw [handleFixMessage, hn]
        exact .other (by simp [isLogout, hn]) (by simp [acceptedLogon, hn]) (.refl manager)
          (Or.inr (submitsNothing_of_forall (by simp)))
    | some n =>
        rw [handleFixMessage, hn]
        dsimp only
        split_ifs with hlogon hlogout hlogged
        · subst hlogon
          exact handleLogon_logons (by simp [isLogout, htype]) htype hn
        · subst hlogout
          exact handleLogout_logons (by simp [isLogout, htype, hn])
        · have hnot : isLogout fixMessage = false := by simp [isLogout, htype, hlogout]
          refine .other hnot (by simp [acceptedLogon, htype, hlogon]) ?_ (Or.inl hlogged)
          exact (FixSessionManager.sameLogons_validateSequence n).trans sameLogons_dispatch
        · have hnot : isLogout fixMessage = false := by simp [isLogout, htype, hlogout]
          exact .other hnot (by simp [acceptedLogon, htype, hlogon]) (.refl manager)
            (Or.inr (submitsNothing_of_forall (by simp)))

end FixSession

/-! ## The server and its logons -/

/-- The server, and the `CompID`s that each registered connection has logged on as
since it last logged out, the latest first. -/
structure LiveServer where
  server : FixServer
  logons : ConnectionID → List String

namespace LiveServer

def start (seqRepo : Option SequenceRepository) : LiveServer := ⟨.start seqRepo, fun _ => []⟩

/-- The logons of a connection after a frame of it. -/
def logonsOfFrame (s : LiveServer) (sessionId : ConnectionID) (fixMessage : Message) :
    List String :=
  if FixSession.isLogout fixMessage then []
  else (FixSession.acceptedLogon s.server.manager fixMessage).toList ++ s.logons sessionId

def logonsAfter (s : LiveServer) : ServerEvent → ConnectionID → List String
  | .accept => Function.update s.logons s.server.nextSessionId []
  | .frame sessionId ctx fixMessage =>
      match s.server.sessions sessionId,
        FixSession.handleFrame ctx s.server.manager sessionId fixMessage with
      | some _, some _ => Function.update s.logons sessionId (s.logonsOfFrame sessionId fixMessage)
      | _, _ => s.logons
  | .disconnect sessionId => Function.update s.logons sessionId []
  | _ => s.logons

def step (s : LiveServer) (event : ServerEvent) : LiveServer :=
  if s.server.running then ⟨s.server.step event, s.logonsAfter event⟩ else s

def run (s : LiveServer) (events : List ServerEvent) : LiveServer := events.foldl step s

/-- A connection is registered under the number. -/
def Registered (s : LiveServer) (sessionId : ConnectionID) : Prop :=
  (s.server.sessions sessionId).isSome = true

/-- A registered connection is mapped to the last `CompID` it has logged on as. -/
def MapsLatest (s : LiveServer) : Prop :=
  ∀ sessionId, s.Registered sessionId →
    s.server.manager.connectionToCompId sessionId = (s.logons sessionId).head?

/-- The flag and the mapping change with the logons, or not at all. -/
inductive FrameStep (s : LiveServer) (sessionId : ConnectionID) (ctx : HandlerContext)
    (fixMessage : Message) (s' : LiveServer) : Prop where
  | quiet (ignored : s.Registered sessionId → FixSession.isLogout fixMessage = false)
      (registered : s'.Registered = s.Registered) (logons : s'.logons = s.logons)
      (same : s.server.manager.SameLogons s'.server.manager)
  | handled (h : s.Registered sessionId) (registered : s'.Registered = s.Registered)
      (r : FixSessionManager × List SessionEffect)
      (frame : FixSession.handleFrame ctx s.server.manager sessionId fixMessage = some r)
      (manager : s'.server.manager = r.1)
      (logons : s'.logons = Function.update s.logons sessionId
        (s.logonsOfFrame sessionId fixMessage))

variable {s s' : LiveServer} {sessionId : ConnectionID} {ctx : HandlerContext}
  {fixMessage : Message}

theorem frame_step (hrunning : s.server.running = true) (sessionId : ConnectionID)
    (ctx : HandlerContext) (fixMessage : Message) :
    s.FrameStep sessionId ctx fixMessage (s.step (.frame sessionId ctx fixMessage)) := by
  have hserver : s.server.step (.frame sessionId ctx fixMessage) =
      (s.server.receive sessionId ctx fixMessage).1 := by
    rw [FixServer.step, if_pos hrunning]
  rw [step, if_pos hrunning, hserver, logonsAfter, FixServer.receive]
  cases hconnection : s.server.sessions sessionId with
  | none => exact .quiet (by simp [Registered, hconnection]) rfl rfl (.refl _)
  | some connection =>
      cases hframe : FixSession.handleFrame ctx s.server.manager sessionId fixMessage with
      | none =>
          refine .quiet (fun _ => ?_) rfl rfl (.refl _)
          simp [FixSession.isLogout, FixSession.msgType_ne_of_handleFrame hframe '5']
      | some r =>
          refine .handled (by simp [Registered, hconnection]) ?_ r hframe rfl rfl
          funext other
          by_cases hother : other = sessionId
          · simp [Registered, hother, hconnection]
          · simp [Registered, Function.update_of_ne hother]

theorem sameLogons_malformed (sessionId : ConnectionID) (ctx : HandlerContext) (error : String) :
    s.server.manager.SameLogons (s.server.rejectMalformed sessionId ctx error).manager ∧
      (s.server.rejectMalformed sessionId ctx error).sessions = s.server.sessions := by
  unfold FixServer.rejectMalformed
  split
  · exact ⟨.refl _, rfl⟩
  · exact ⟨FixSessionManager.sameLogons_useNextOutboundSequence _ _, rfl⟩

theorem sameLogons_sendTo (sessionId : ConnectionID) :
    s.server.manager.SameLogons (s.server.sendTo sessionId).manager ∧
      (s.server.sendTo sessionId).sessions = s.server.sessions := by
  unfold FixServer.sendTo
  split
  · exact ⟨.refl _, rfl⟩
  · exact ⟨FixSessionManager.sameLogons_useNextOutboundSequence _ _, rfl⟩

/-- What is left of the events once accepts, frames and disconnects are set apart. -/
theorem quiet_step (hrunning : s.server.running = true) (event : ServerEvent)
    (haccept : event ≠ .accept) (hframe : ∀ sessionId ctx fixMessage,
      event ≠ .frame sessionId ctx fixMessage)
    (hdisconnect : ∀ sessionId, event ≠ .disconnect sessionId) :
    (s.step event).Registered = s.Registered ∧ (s.step event).logons = s.logons ∧
      s.server.manager.SameLogons (s.step event).server.manager := by
  have hserver : s.step event = ⟨s.server.step event, s.logonsAfter event⟩ := if_pos hrunning
  rw [hserver]
  unfold Registered FixServer.step
  simp only [hrunning, if_true]
  cases event with
  | accept => exact absurd rfl haccept
  | frame sessionId ctx fixMessage => exact absurd rfl (hframe sessionId ctx fixMessage)
  | malformed sessionId ctx error =>
      obtain ⟨hsame, hsessions⟩ := sameLogons_malformed (s := s) sessionId ctx error
      exact ⟨by simp only [hsessions], rfl, hsame⟩
  | disconnect sessionId => exact absurd rfl (hdisconnect sessionId)
  | outbound sessionId =>
      obtain ⟨hsame, hsessions⟩ := sameLogons_sendTo (s := s) sessionId
      exact ⟨by simp only [hsessions], rfl, hsame⟩
  | loadConfig validClients => exact ⟨rfl, rfl, rfl, rfl⟩

/-- The kinds of events that the invariants of logons tell apart. -/
theorem event_cases (hrunning : s.server.running = true) (event : ServerEvent) :
    event = .accept ∨ (∃ sessionId, event = .disconnect sessionId) ∨
      (∃ sessionId ctx fixMessage, event = .frame sessionId ctx fixMessage) ∨
      ((s.step event).Registered = s.Registered ∧ (s.step event).logons = s.logons ∧
        s.server.manager.SameLogons (s.step event).server.manager) := by
  have hquiet := quiet_step (s := s) hrunning event
  cases event with
  | accept => exact Or.inl rfl
  | disconnect sessionId => exact Or.inr (Or.inl ⟨sessionId, rfl⟩)
  | frame sessionId ctx fixMessage =>
      exact Or.inr (Or.inr (Or.inl ⟨sessionId, ctx, fixMessage, rfl⟩))
  | malformed sessionId ctx error => exact Or.inr (Or.inr (Or.inr (hquiet nofun nofun nofun)))
  | outbound sessionId => exact Or.inr (Or.inr (Or.inr (hquiet nofun nofun nofun)))
  | loadConfig validClients => exact Or.inr (Or.inr (Or.inr (hquiet nofun nofun nofun)))

theorem accept_eq (hrunning : s.server.running = true) : s.step .accept =
    ⟨s.server.accept, Function.update s.logons s.server.nextSessionId []⟩ := by
  rw [step, if_pos hrunning, FixServer.step, if_pos hrunning, logonsAfter]

theorem disconnect_eq (hrunning : s.server.running = true) (sessionId : ConnectionID) :
    s.step (.disconnect sessionId) =
      ⟨s.server.unregisterSession sessionId, Function.update s.logons sessionId []⟩ := by
  rw [step, if_pos hrunning, FixServer.step, if_pos hrunning, logonsAfter]

theorem registered_accept {logons : ConnectionID → List String} {other : ConnectionID} :
    Registered ⟨s.server.accept, logons⟩ other ↔
      other = s.server.nextSessionId ∨ s.Registered other := by
  by_cases h : other = s.server.nextSessionId
  · simp [Registered, FixServer.accept, h]
  · simp [Registered, FixServer.accept, h]

theorem registered_unregister {logons : ConnectionID → List String} {other : ConnectionID} :
    Registered ⟨s.server.unregisterSession sessionId, logons⟩ other ↔
      other ≠ sessionId ∧ s.Registered other := by
  by_cases h : other = sessionId
  · simp [Registered, FixServer.unregisterSession, h]
  · simp [Registered, FixServer.unregisterSession, h]

/-! ## Mappings -/

theorem MapsLatest.of_same (h : s.MapsLatest) (hregistered : s'.Registered = s.Registered)
    (hlogons : s'.logons = s.logons)
    (hsame : s.server.manager.SameLogons s'.server.manager) : s'.MapsLatest := by
  intro sessionId hsession
  rw [hsame.mapping, hlogons]
  apply h
  rwa [← hregistered]

/-- A new connection has no logons, so its number must have no mapping. -/
theorem MapsLatest.accept (h : s.MapsLatest)
    (hfresh : s.server.manager.connectionToCompId s.server.nextSessionId = none) :
    MapsLatest ⟨s.server.accept, Function.update s.logons s.server.nextSessionId []⟩ := by
  intro other hother
  by_cases hnew : other = s.server.nextSessionId
  · subst hnew
    simp only [Function.update_self]
    exact hfresh
  · simp only [Function.update_of_ne hnew]
    exact h other ((registered_accept.mp hother).resolve_left hnew)

theorem MapsLatest.unregister (h : s.MapsLatest) (sessionId : ConnectionID) :
    MapsLatest ⟨s.server.unregisterSession sessionId, Function.update s.logons sessionId []⟩ := by
  intro other hother
  obtain ⟨hne, hregistered⟩ := registered_unregister.mp hother
  simp only [Function.update_of_ne hne]
  exact h other hregistered

/-- The mapping and the logons of one connection change together. -/
theorem MapsLatest.update {mapped : Option String} {logons : List String} (h : s.MapsLatest)
    (hregistered : s'.Registered = s.Registered)
    (hlogons : s'.logons = Function.update s.logons sessionId logons)
    (hmapping : s'.server.manager.connectionToCompId =
      Function.update s.server.manager.connectionToCompId sessionId mapped)
    (hmapped : mapped = logons.head?) : s'.MapsLatest := by
  intro other hother
  rw [hregistered] at hother
  rw [hmapping, hlogons]
  by_cases hne : other = sessionId
  · simp [hne, hmapped]
  · simpa [hne] using h other hother

theorem MapsLatest.frame (h : s.MapsLatest) (hrunning : s.server.running = true)
    (sessionId : ConnectionID) (ctx : HandlerContext) (fixMessage : Message) :
    (s.step (.frame sessionId ctx fixMessage)).MapsLatest := by
  cases frame_step hrunning sessionId ctx fixMessage with
  | quiet _ hregistered hlogons hsame => exact h.of_same hregistered hlogons hsame
  | handled _ hregistered r hframe hmanager hlogons =>
      cases FixSession.handleFrame_logons hframe with
      | logout hlogout hmapping _ _ =>
          rw [logonsOfFrame, if_pos hlogout] at hlogons
          rw [← hmanager] at hmapping
          exact h.update hregistered hlogons hmapping rfl
      | logon hlogon hlogout hmapping _ _ =>
          rw [logonsOfFrame, hlogout, hlogon] at hlogons
          rw [← hmanager] at hmapping
          exact h.update hregistered hlogons hmapping rfl
      | other hlogout hlogon hsame _ =>
          rw [logonsOfFrame, hlogout, hlogon] at hlogons
          rw [← hmanager] at hsame
          refine h.of_same hregistered (hlogons.trans ?_) hsame
          exact Function.update_eq_self sessionId s.logons

/-- The number of a new connection has no mapping left from an earlier one. -/
def NumbersFresh (s : LiveServer) (event : ServerEvent) : Prop :=
  s.server.running = true → event = .accept →
    s.server.manager.connectionToCompId s.server.nextSessionId = none

theorem MapsLatest.step (h : s.MapsLatest) {event : ServerEvent} (hfresh : s.NumbersFresh event) :
    (s.step event).MapsLatest := by
  by_cases hrunning : s.server.running = true
  · rcases event_cases hrunning event with
      haccept | ⟨sessionId, rfl⟩ | ⟨sessionId, ctx, fixMessage, rfl⟩ | ⟨hregistered, hlogons, hsame⟩
    · rw [haccept, accept_eq hrunning]
      exact h.accept (hfresh hrunning haccept)
    · rw [disconnect_eq hrunning]
      exact h.unregister sessionId
    · exact h.frame hrunning sessionId ctx fixMessage
    · exact h.of_same hregistered hlogons hsame
  · have hstay : s.step event = s := if_neg hrunning
    rwa [hstay]

theorem mapsLatest_start (seqRepo : Option SequenceRepository) : (start seqRepo).MapsLatest := by
  intro sessionId hsession
  simp [start, FixServer.start, Registered] at hsession

end LiveServer

end BetaTrader
