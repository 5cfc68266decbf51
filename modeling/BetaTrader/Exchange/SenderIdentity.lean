import BetaTrader.Exchange.SessionSpec

/-!
# The identity that an order carries

The `SenderCompID` of an order is what its message states, and nothing compares
it with the CompID that the connection has been accepted under.
-/

namespace BetaTrader

open FixUtils

/-- What the last field 49 of a message states. -/
def FixSession.statedSender (fixMessage : Message) : Option String :=
  ((splitToMap fixMessage soh).bind fun fields => fields.get .senderCompID).map String.ofList

/-- A NewOrderSingle that the session makes an order from. -/
structure FixSession.EntersOrder (manager : FixSessionManager) (sessionId : ConnectionID)
    (fixMessage : Message) : Prop where
  loggedOn : isLoggedOn manager sessionId = true
  numbered : (msgSeqNum fixMessage).isSome
  isNewOrderSingle : msgType fixMessage = some 'D'
  converts : (BinaryToOrderRequestConverter.convert fixMessage).isSome

theorem BinaryToOrderRequestConverter.statedSender_of_convert {fixMessage : Message}
    {request : OrderRequest} (h : convert fixMessage = some request) :
    FixSession.statedSender fixMessage = some request.senderCompID := by
  simp only [convert, Option.bind_eq_bind, Option.bind_eq_some_iff, Option.pure_def,
    Option.some.injEq] at h
  obtain ⟨_, _, fields, hfields, senderCompID, hsender, _, _, _, _, _, _, _, _, _, _, rfl⟩ := h
  simp [FixSession.statedSender, hfields, hsender]

namespace FixSession

variable {ctx : HandlerContext} {manager : FixSessionManager} {sessionId : ConnectionID}
  {fixMessage : Message} {r : FixSessionManager × List SessionEffect}

/-- What a session submits when it makes an order from a message. -/
theorem handleFrame_enters (h : handleFrame ctx manager sessionId fixMessage = some r)
    (henters : EntersOrder manager sessionId fixMessage) :
    ∃ request, BinaryToOrderRequestConverter.convert fixMessage = some request ∧
      SessionEffect.commands r.2 =
        [.newOrder (request.newOrder sessionId ctx.nextId ctx.now)] := by
  obtain ⟨request, hrequest⟩ := Option.isSome_iff_exists.mp henters.converts
  obtain ⟨n, hn⟩ := Option.isSome_iff_exists.mp henters.numbered
  refine ⟨request, hrequest, ?_⟩
  have hr : some r = some (handleFixMessage ctx manager sessionId fixMessage 'D') := by
    obtain ⟨fields, hfields, htype⟩ := Option.bind_eq_some_iff.mp henters.isNewOrderSingle
    obtain ⟨value, hvalue, hhead⟩ := Option.bind_eq_some_iff.mp htype
    obtain ⟨rest, rfl⟩ : ∃ rest, value = 'D' :: rest := by
      cases value with
      | nil => simp at hhead
      | cons c rest => exact ⟨rest, by rw [Option.some.inj hhead]⟩
    rw [← h, handleFrame, hfields, Option.bind_eq_bind, Option.bind_some, hvalue]
    rfl
  rw [Option.some.inj hr, handleFixMessage, hn]
  simp only [show ('D' : Char) ≠ 'A' by decide, show ('D' : Char) ≠ '5' by decide,
    henters.loggedOn, if_false, if_true]
  simp [dispatch, handleNewOrderSingle, hrequest, SessionEffect.commands]

/-- Only such a message leads to a new order. -/
theorem enters_of_newOrder (h : handleFrame ctx manager sessionId fixMessage = some r)
    {cmd : NewOrder Double} (hcmd : .newOrder cmd ∈ SessionEffect.commands r.2) :
    EntersOrder manager sessionId fixMessage := by
  rcases handleFrame_cases h with hquiet | ⟨n, command, hn, hlogged, rfl, hsubmits⟩
  · simp [hquiet.commands] at hcmd
  · rw [SessionEffect.commands, SessionEffect.commands, List.mem_singleton] at hcmd
    subst hcmd
    cases hsubmits with
    | newOrder htype hconvert =>
        exact ⟨hlogged, by simp [hn], htype, by simp [hconvert]⟩

/-- The orders that a frame leads to carry a given identity exactly when the
frame states it, should it lead to an order. -/
theorem carries_iff (h : handleFrame ctx manager sessionId fixMessage = some r)
    (compId : Option String) :
    (∀ cmd, .newOrder cmd ∈ SessionEffect.commands r.2 →
      compId = some cmd.order.senderCompID) ↔
    (EntersOrder manager sessionId fixMessage → statedSender fixMessage = compId) := by
  by_cases henters : EntersOrder manager sessionId fixMessage
  · obtain ⟨request, hconvert, hcommands⟩ := handleFrame_enters h henters
    have hstated := BinaryToOrderRequestConverter.statedSender_of_convert hconvert
    simp only [henters, forall_true_left, hcommands, List.mem_singleton, Command.newOrder.injEq,
      forall_eq, hstated]
    exact eq_comm
  · simp only [henters, false_imp_iff, iff_true]
    exact fun cmd hcmd => absurd (enters_of_newOrder h hcmd) henters

end FixSession

namespace FixServer

/-- The orders that have been submitted carry the CompID that their connection
had been accepted under. -/
def CarriesIdentity (server : FixServer) : Prop :=
  ∀ sub ∈ server.submissions, ∀ cmd, sub.command = .newOrder cmd →
    sub.connection.acceptedAs = some cmd.order.senderCompID

/-- A frame that an order is made from states, in its last field 49, the CompID
that the connection has been accepted under. -/
def StatesIdentity (server : FixServer) : ServerEvent → Prop
  | .frame sessionId _ fixMessage => server.running = true →
      ∀ connection, server.sessions sessionId = some connection →
        FixSession.EntersOrder server.manager sessionId fixMessage →
          FixSession.statedSender fixMessage = connection.acceptedAs
  | _ => True

variable {server server' : FixServer}

theorem carriesIdentity_congr (h : server'.submissions = server.submissions) :
    server'.CarriesIdentity ↔ server.CarriesIdentity := by
  rw [CarriesIdentity, CarriesIdentity, h]

theorem carriesIdentity_receive (server : FixServer) (sessionId : ConnectionID)
    (ctx : HandlerContext) (fixMessage : Message) :
    (server.receive sessionId ctx fixMessage).1.CarriesIdentity ↔
      server.CarriesIdentity ∧ ∀ connection, server.sessions sessionId = some connection →
        FixSession.EntersOrder server.manager sessionId fixMessage →
          FixSession.statedSender fixMessage = connection.acceptedAs := by
  unfold receive
  split
  · next hnone => simp [hnone]
  · next connection hconnection =>
      simp only [hconnection, Option.some.injEq, forall_eq']
      split
      · next hframe =>
          refine (and_iff_left fun henters => ?_).symm
          exact absurd henters.isNewOrderSingle (FixSession.msgType_ne_of_handleFrame hframe 'D')
      · next manager effects hframe =>
          have hcarries := FixSession.carries_iff hframe connection.acceptedAs
          rw [← hcarries]
          simp only [CarriesIdentity, List.forall_mem_append, List.forall_mem_map, submission]
          exact and_congr_right fun _ =>
            ⟨fun h cmd hcmd => h _ hcmd cmd rfl, fun h command hcommand cmd heq =>
              h cmd (heq ▸ hcommand)⟩

theorem submissions_rejectMalformed (sessionId : ConnectionID) (ctx : HandlerContext)
    (error : String) :
    (server.rejectMalformed sessionId ctx error).submissions = server.submissions := by
  unfold rejectMalformed
  split <;> rfl

theorem submissions_sendTo (sessionId : ConnectionID) :
    (server.sendTo sessionId).submissions = server.submissions := by
  unfold sendTo
  split <;> rfl

theorem carriesIdentity_step (server : FixServer) (event : ServerEvent) :
    (server.step event).CarriesIdentity ↔
      server.CarriesIdentity ∧ server.StatesIdentity event := by
  have hquiet {server' : FixServer} (h : server'.submissions = server.submissions) :
      server'.CarriesIdentity ↔ server.CarriesIdentity ∧ True := by
    rw [and_true, carriesIdentity_congr h]
  unfold step
  split_ifs with hrunning
  · cases event with
    | accept => exact hquiet rfl
    | frame sessionId ctx fixMessage =>
        simpa only [StatesIdentity, hrunning, forall_true_left] using
          carriesIdentity_receive server sessionId ctx fixMessage
    | malformed sessionId ctx error =>
        exact hquiet (submissions_rejectMalformed sessionId ctx error)
    | disconnect sessionId => exact hquiet rfl
    | outbound sessionId => exact hquiet (submissions_sendTo sessionId)
    | loadConfig validClients => exact hquiet rfl
  · cases event <;> simp [StatesIdentity, hrunning]

/-- The orders carry the authenticated identity exactly in the runs whose
messages state it. -/
theorem carriesIdentity_iff (seqRepo : Option SequenceRepository) (events : List ServerEvent) :
    ((start seqRepo).run events).CarriesIdentity ↔
      TotalRun.Meets step StatesIdentity (start seqRepo) events :=
  TotalRun.foldl_exact carriesIdentity_step (by simp [CarriesIdentity, start])

/-- The sender that a new order carries. -/
def Sample.sender : Command Double → Option String
  | .newOrder cmd => some cmd.order.senderCompID
  | _ => none

/-- A client enters an order in the name of another one. -/
theorem order_of_other :
    ¬((start none).run (Sample.loggedOn ++
      [.frame 1 (Sample.ctx 1) (Sample.newOrderSingle "C2" 2)])).CarriesIdentity := by
  intro h
  have hnames : (((start none).run (Sample.loggedOn ++
      [.frame 1 (Sample.ctx 1) (Sample.newOrderSingle "C2" 2)])).submissions.map fun sub =>
        (sub.connection.acceptedAs, Sample.sender sub.command)) = [(some "C1", some "C2")] := by
    decide +kernel
  obtain ⟨sub, hsub, heq⟩ := List.map_eq_singleton_iff.mp hnames
  have hcarries := h sub (by simp [hsub])
  obtain ⟨haccepted, hsender⟩ := Prod.mk.inj heq
  cases hcommand : sub.command with
  | newOrder cmd =>
      rw [hcommand] at hsender
      have hnames := (hcarries cmd hcommand).symm.trans haccepted
      exact absurd (hnames.symm.trans hsender) (by decide)
  | cancelOrder cmd => simp [hcommand, Sample.sender] at hsender
  | modifyOrder cmd => simp [hcommand, Sample.sender] at hsender

end FixServer

end BetaTrader
