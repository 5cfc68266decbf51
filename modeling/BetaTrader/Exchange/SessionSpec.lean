import BetaTrader.Exchange.FixServer

/-!
# What a frame does

A frame leads to a command only on a session that is logged on, and then the
command is all it leads to.  Of the numbers that a `CompID` has received, a
frame changes at most one, and by one.
-/

namespace BetaTrader

namespace FixSessionManager

variable {manager manager' : FixSessionManager} {sessionId : ConnectionID} {compId : String}
  {n : UInt32}

/-- The names and the inbound numbers of the sessions. -/
def numbers (manager : FixSessionManager) (compId : String) : Option (String × UInt32) :=
  (manager.sessionStates compId).map fun state => (state.senderCompId, state.inSeqNum)

/-- The state that a logon finds or creates. -/
def stateOf (manager : FixSessionManager) (compId : String) : SessionState :=
  (manager.sessionStates compId).getD (manager.initialState compId)

/-- Sessions stay, and their inbound numbers do not fall. -/
def Advances (manager manager' : FixSessionManager) : Prop :=
  ∀ compId name n, manager.numbers compId = some (name, n) →
    ∃ n', manager'.numbers compId = some (name, n') ∧ n.toNat ≤ n'.toNat

theorem advances_of_numbers (h : manager'.numbers = manager.numbers) :
    manager.Advances manager' := fun compId name n hn =>
  ⟨n, by rw [h, hn], le_rfl⟩

theorem Advances.trans {manager'' : FixSessionManager} (h : manager.Advances manager')
    (h' : manager'.Advances manager'') : manager.Advances manager'' := by
  intro compId name n hn
  obtain ⟨n', hn', hle⟩ := h compId name n hn
  obtain ⟨n'', hn'', hle'⟩ := h' compId name n' hn'
  exact ⟨n'', hn'', hle.trans hle'⟩

theorem numbers_setState (state : SessionState) : (manager.setState compId state).numbers =
    Function.update manager.numbers compId (some (state.senderCompId, state.inSeqNum)) := by
  funext compId'
  by_cases h : compId' = compId
  · simp [h, numbers, setState]
  · simp [h, numbers, setState]

/-- Flags and outbound numbers may change freely. -/
theorem numbers_setState_of_same {state state' : SessionState}
    (h : manager.sessionStates compId = some state)
    (hname : state'.senderCompId = state.senderCompId)
    (hin : state'.inSeqNum = state.inSeqNum) :
    (manager.setState compId state').numbers = manager.numbers := by
  rw [numbers_setState, Function.update_eq_self_iff, numbers, h, hname, hin]
  rfl

@[simp] theorem useNextOutboundSequence_numbers :
    (manager.useNextOutboundSequence sessionId).2.numbers = manager.numbers := by
  unfold useNextOutboundSequence
  split
  · rfl
  · split
    · rfl
    · next state hstate => exact numbers_setState_of_same hstate rfl rfl

@[simp] theorem handleLogout_numbers :
    (manager.handleLogout sessionId).numbers = manager.numbers := by
  unfold handleLogout
  split
  · rfl
  · split
    · rfl
    · next state hstate => exact numbers_setState_of_same hstate rfl rfl

theorem authenticate_numbers (hvalid : manager.validClients compId = true) :
    (manager.authenticate sessionId compId).2.numbers =
      Function.update manager.numbers compId
        (some ((manager.stateOf compId).senderCompId, (manager.stateOf compId).inSeqNum)) := by
  simp only [authenticate, hvalid, if_true]
  exact numbers_setState _

theorem authenticate_of_not_valid (sessionId : ConnectionID)
    (hvalid : ¬manager.validClients compId = true) :
    manager.authenticate sessionId compId = (false, manager) := by
  simp [authenticate, hvalid]

theorem authenticate_fst (sessionId : ConnectionID) :
    (manager.authenticate sessionId compId).1 = manager.validClients compId := by
  unfold authenticate
  split_ifs with hvalid
  · exact hvalid.symm
  · exact (Bool.not_eq_true _ ▸ hvalid : manager.validClients compId = false).symm

theorem authenticate_advances : manager.Advances (manager.authenticate sessionId compId).2 := by
  by_cases hvalid : manager.validClients compId = true
  · intro compId' name n hn
    rw [authenticate_numbers hvalid]
    by_cases h : compId' = compId
    · subst h
      obtain ⟨state, hstate, heq⟩ := Option.map_eq_some_iff.mp hn
      refine ⟨n, ?_, le_rfl⟩
      rw [Function.update_self, stateOf, hstate, Option.getD_some, heq]
    · exact ⟨n, by rw [Function.update_of_ne h, hn], le_rfl⟩
  · rw [authenticate_of_not_valid sessionId hvalid]
    exact advances_of_numbers rfl

/-- The next number is counted, any other changes nothing. -/
theorem validateSequence_numbers : (manager.validateSequence sessionId n).2 = manager ∨
    ∃ compId state, manager.connectionToCompId sessionId = some compId ∧
      manager.sessionStates compId = some state ∧ n = state.inSeqNum + 1 ∧
      (manager.validateSequence sessionId n).2.numbers =
        Function.update manager.numbers compId (some (state.senderCompId, n)) := by
  unfold validateSequence
  split
  · exact Or.inl rfl
  · next compId hcompId =>
      split
      · exact Or.inl rfl
      · next state hstate =>
          split_ifs with hlogged hnext
          · exact Or.inl rfl
          · exact Or.inr ⟨compId, state, hcompId, hstate, hnext, numbers_setState _⟩
          · exact Or.inl rfl

/-- The next number of a session that is logged on is counted. -/
theorem validateSequence_next {state : SessionState}
    (hstate : manager.getSessionState sessionId = some state) (hlogged : state.isLoggedOn = true)
    (hnext : n = state.inSeqNum + 1) :
    ∃ compId, manager.connectionToCompId sessionId = some compId ∧
      manager.sessionStates compId = some state ∧
      (manager.validateSequence sessionId n).2.numbers =
        Function.update manager.numbers compId (some (state.senderCompId, n)) := by
  obtain ⟨compId, hcompId, hstate⟩ := Option.bind_eq_some_iff.mp hstate
  refine ⟨compId, hcompId, hstate, ?_⟩
  simp only [validateSequence, hcompId, hstate, hlogged, Bool.not_true, Bool.false_eq_true,
    if_false, if_pos hnext]
  exact numbers_setState _

/-- The next number is greater, unless it wraps around. -/
theorem lt_next {m : UInt32} (hn : n = m + 1) (hwrap : n = 0 → m ≠ 4294967295) :
    m.toNat < n.toNat := by
  rw [hn, UInt32.toNat_add]
  have hm := m.toNat_lt
  have hne : m.toNat ≠ 4294967295 := by
    intro heq
    have hmax : m = 4294967295 := UInt32.toNat_inj.mp heq
    refine hwrap ?_ hmax
    rw [hn, hmax]
    rfl
  have hone : (1 : UInt32).toNat = 1 := rfl
  omega

/-- A number that does not wrap around only advances. -/
theorem validateSequence_advances (hwrap : n = 0 → ∀ compId state,
      manager.connectionToCompId sessionId = some compId →
      manager.sessionStates compId = some state → state.inSeqNum ≠ 4294967295) :
    manager.Advances (manager.validateSequence sessionId n).2 := by
  rcases validateSequence_numbers with heq | ⟨compId, state, hcompId, hstate, hnext, heq⟩
  · exact advances_of_numbers (by rw [heq])
  · intro compId' name m hm
    rw [heq]
    by_cases h : compId' = compId
    · subst h
      simp only [numbers, hstate, Option.map_some, Option.some.injEq, Prod.mk.injEq] at hm
      obtain ⟨rfl, rfl⟩ := hm
      refine ⟨n, by rw [Function.update_self], le_of_lt ?_⟩
      exact lt_next hnext fun hzero => hwrap hzero _ state hcompId hstate
    · exact ⟨m, by rw [Function.update_of_ne h, hm], le_rfl⟩

end FixSessionManager

namespace FixSession

open FixUtils

variable {ctx : HandlerContext} {manager manager' : FixSessionManager}
  {sessionId : ConnectionID} {fixMessage : Message}
  {r : FixSessionManager × List SessionEffect}

/-- The message type that the read handler finds. -/
def msgType (fixMessage : Message) : Option Char :=
  (splitToMap fixMessage soh).bind fun fields => (fields.get .msgType).bind List.head?

/-- An exception that ends the process comes before the message type is read. -/
theorem msgType_ne_of_handleFrame (h : handleFrame ctx manager sessionId fixMessage = none)
    (c : Char) : msgType fixMessage ≠ some c := by
  intro htype
  obtain ⟨fields, hfields, _⟩ := Option.bind_eq_some_iff.mp htype
  rw [handleFrame, hfields, Option.bind_eq_bind, Option.bind_some] at h
  split at h <;> simp at h

/-- The command that a session submits for a message once it is logged on. -/
inductive Submits (ctx : HandlerContext) (sessionId : ConnectionID) (fixMessage : Message) :
    Command Double → Prop where
  | newOrder {request : OrderRequest} (htype : msgType fixMessage = some 'D')
      (h : BinaryToOrderRequestConverter.convert fixMessage = some request) :
      Submits ctx sessionId fixMessage
        (.newOrder (request.newOrder sessionId ctx.nextId ctx.now))
  | cancelOrder {request : CancelOrderRequest} (htype : msgType fixMessage = some 'F')
      (h : BinaryToCancelOrderRequestConverter.convert ctx.utcOffset fixMessage = some request)
      (hid : orderIdToCancel ctx request ≠ 0) :
      Submits ctx sessionId fixMessage (.cancelOrder {
        clientId := numberText sessionId.toNat
        timestamp := request.transactTime
        orderId := orderIdToCancel ctx request })
  | modifyOrder {request : ModifyOrderRequest} (htype : msgType fixMessage = some 'G')
      (h : BinaryToModifyOrderRequestConverter.convert ctx.utcOffset fixMessage = some request)
      (hid : orderIdToModify ctx request ≠ 0) :
      Submits ctx sessionId fixMessage (.modifyOrder {
        clientId := numberText sessionId.toNat
        timestamp := request.transactTime
        orderId := orderIdToModify ctx request
        newPrice := request.price
        newQuantity := request.orderQty })

/-- A frame without effects on the trading core, whose logons are those that the
manager accepts. -/
structure Quiet (manager : FixSessionManager) (fixMessage : Message)
    (effects : List SessionEffect) : Prop where
  commands : SessionEffect.commands effects = []
  authenticated : ∀ compId, .authenticated compId ∈ effects →
    compId = String.ofList (senderCompId fixMessage) ∧ manager.validClients compId = true

theorem buildNext_quiet (manager₀ : FixSessionManager)
    (build : UInt32 → Timestamp → Message) :
    Quiet manager₀ fixMessage (buildNext ctx manager sessionId build).2 :=
  ⟨rfl, by simp [buildNext]⟩

/-- The cases of the `switch`. -/
theorem dispatch_cases {c : Char} {n : UInt32} (htype : msgType fixMessage = some c)
    (manager₀ : FixSessionManager) :
    Quiet manager₀ fixMessage (dispatch ctx manager sessionId fixMessage c n).2 ∨
    ∃ command, dispatch ctx manager sessionId fixMessage c n =
      (manager, [.submitCommand command]) ∧ Submits ctx sessionId fixMessage command := by
  have hnil : Quiet manager₀ fixMessage [] := ⟨rfl, by simp⟩
  unfold dispatch
  split_ifs with htest hnew hcancel hmodify hmarket
  · exact Or.inl (buildNext_quiet manager₀ _)
  · subst hnew
    unfold handleNewOrderSingle
    split
    · next request h => exact Or.inr ⟨_, rfl, .newOrder htype h⟩
    · exact Or.inl (buildNext_quiet manager₀ _)
  · subst hcancel
    unfold handleCancelOrderRequest
    split
    · exact Or.inl hnil
    · next request h =>
        split_ifs with hid
        · exact Or.inl hnil
        · exact Or.inr ⟨_, rfl, .cancelOrder htype h hid⟩
  · subst hmodify
    unfold handleModifyOrderRequest
    split
    · exact Or.inl hnil
    · next request h =>
        split_ifs with hid
        · exact Or.inl hnil
        · exact Or.inr ⟨_, rfl, .modifyOrder htype h hid⟩
  · exact Or.inl ⟨rfl, by simp⟩
  · exact Or.inl hnil

/-- The manager after an accepted logon. -/
def accepted (manager : FixSessionManager) (sessionId : ConnectionID) (fixMessage : Message) :
    FixSessionManager :=
  (manager.authenticate sessionId (String.ofList (senderCompId fixMessage))).2

theorem handleLogon_eq (ctx : HandlerContext) (manager : FixSessionManager)
    (sessionId : ConnectionID) (fixMessage : Message) (n : UInt32) :
    ∃ logout logonAck, handleLogon ctx manager sessionId fixMessage n =
      if manager.validClients (String.ofList (senderCompId fixMessage)) then
        ((((accepted manager sessionId fixMessage).validateSequence sessionId
          n).2.useNextOutboundSequence sessionId).2,
          [.authenticated (String.ofList (senderCompId fixMessage)), .doWrite logonAck])
      else (manager, [.doWrite logout, .close]) := by
  rw [← FixSessionManager.authenticate_fst sessionId]
  by_cases hvalid : manager.validClients (String.ofList (senderCompId fixMessage)) = true
  · have hfst : (manager.authenticate sessionId
        (String.ofList (senderCompId fixMessage))).1 = true := by
      rw [FixSessionManager.authenticate_fst, hvalid]
    exact ⟨[], _, by simp only [handleLogon, hfst]; rfl⟩
  · have heq := FixSessionManager.authenticate_of_not_valid sessionId hvalid
    exact ⟨_, [], by simp only [handleLogon, heq]; rfl⟩

/-- Which of its branches `handleFixMessage` takes. -/
theorem handleFixMessage_cases (ctx : HandlerContext) (manager : FixSessionManager)
    (sessionId : ConnectionID) (fixMessage : Message) (c : Char) :
    handleFixMessage ctx manager sessionId fixMessage c = (manager, []) ∨
    handleFixMessage ctx manager sessionId fixMessage c = (manager, [.close]) ∨
    handleFixMessage ctx manager sessionId fixMessage c =
      handleLogout ctx manager sessionId fixMessage ∨
    (∃ n, msgSeqNum fixMessage = some n ∧
      (handleFixMessage ctx manager sessionId fixMessage c =
          handleLogon ctx manager sessionId fixMessage n ∨
        (isLoggedOn manager sessionId = true ∧
          handleFixMessage ctx manager sessionId fixMessage c =
            dispatch ctx (manager.validateSequence sessionId n).2 sessionId fixMessage c n))) := by
  unfold handleFixMessage
  cases hn : msgSeqNum fixMessage with
  | none => exact Or.inl rfl
  | some n =>
      dsimp only
      split_ifs with hlogon hlogout hlogged
      · exact Or.inr (Or.inr (Or.inr ⟨n, rfl, Or.inl rfl⟩))
      · exact Or.inr (Or.inr (Or.inl rfl))
      · exact Or.inr (Or.inr (Or.inr ⟨n, rfl, Or.inr ⟨hlogged, rfl⟩⟩))
      · exact Or.inr (Or.inl rfl)

/-- The read handler refuses the frame, or handles it by its type. -/
theorem handleFrame_eq
    (h : handleFrame ctx manager sessionId fixMessage = some r) :
    r = sendReject ctx manager sessionId 0 "Missing MsgType (Tag 35)" ∨
    ∃ c, msgType fixMessage = some c ∧
      r = handleFixMessage ctx manager sessionId fixMessage c := by
  obtain ⟨fields, hfields, h⟩ := Option.bind_eq_some_iff.mp h
  split at h
  · next c _ hget =>
      exact Or.inr ⟨c, by simp [msgType, hfields, hget], (Option.some.inj h).symm⟩
  · exact Or.inl (Option.some.inj h).symm

theorem handleLogon_quiet {n : UInt32} :
    Quiet manager fixMessage (handleLogon ctx manager sessionId fixMessage n).2 := by
  obtain ⟨logout, logonAck, heq⟩ := handleLogon_eq ctx manager sessionId fixMessage n
  rw [heq]
  split_ifs with hvalid
  · exact ⟨rfl, fun compId hmem => by simp_all⟩
  · exact ⟨rfl, by simp⟩

/-- A frame is quiet, or the command it leads to is all it leads to. -/
theorem handleFrame_cases (h : handleFrame ctx manager sessionId fixMessage = some r) :
    Quiet manager fixMessage r.2 ∨
    ∃ n command, msgSeqNum fixMessage = some n ∧ isLoggedOn manager sessionId = true ∧
      r = ((manager.validateSequence sessionId n).2, [.submitCommand command]) ∧
      Submits ctx sessionId fixMessage command := by
  rcases handleFrame_eq h with rfl | ⟨c, htype, rfl⟩
  · exact Or.inl (buildNext_quiet manager _)
  · rcases handleFixMessage_cases ctx manager sessionId fixMessage c with
      hcase | hcase | hcase | ⟨n, hn, hcase | ⟨hlogged, hcase⟩⟩ <;> rw [hcase]
    · exact Or.inl ⟨rfl, by simp⟩
    · exact Or.inl ⟨rfl, by simp⟩
    · exact Or.inl ⟨rfl, by simp [handleLogout]⟩
    · exact Or.inl handleLogon_quiet
    · refine (dispatch_cases htype manager).imp_right ?_
      rintro ⟨command, hdispatch, hsubmits⟩
      exact ⟨n, command, hn, hlogged, hdispatch, hsubmits⟩

theorem exists_of_isLoggedOn (h : isLoggedOn manager sessionId = true) :
    ∃ state, manager.getSessionState sessionId = some state ∧ state.isLoggedOn = true := by
  unfold isLoggedOn at h
  split at h
  · simp at h
  · next state hstate => exact ⟨state, hstate, h⟩

/-! ## Inbound numbers -/

/-- A message without a positive number finds the counters that it could move
away from their end, where they would wrap around. -/
def CountsOn (manager : FixSessionManager) (sessionId : ConnectionID) (fixMessage : Message) :
    Prop :=
  msgSeqNum fixMessage = some 0 → ∀ compId,
    compId = String.ofList (senderCompId fixMessage) ∨
      manager.connectionToCompId sessionId = some compId →
    (manager.stateOf compId).inSeqNum ≠ 4294967295

theorem buildNext_numbers (build : UInt32 → Timestamp → Message) :
    (buildNext ctx manager sessionId build).1.numbers = manager.numbers :=
  FixSessionManager.useNextOutboundSequence_numbers

theorem sendReject_numbers (ctx : HandlerContext) (refSeqNum : ℕ) (text : String) :
    (sendReject ctx manager sessionId refSeqNum text).1.numbers = manager.numbers :=
  buildNext_numbers _

theorem dispatch_numbers {c : Char} {n : UInt32} :
    (dispatch ctx manager sessionId fixMessage c n).1.numbers = manager.numbers := by
  unfold dispatch
  split_ifs
  · exact buildNext_numbers _
  · unfold handleNewOrderSingle
    split
    · rfl
    · exact buildNext_numbers _
  · rfl
  · rfl
  · rfl
  · rfl

theorem handleLogon_advances {n : UInt32} (hn : msgSeqNum fixMessage = some n)
    (hcounts : CountsOn manager sessionId fixMessage) :
    manager.Advances (handleLogon ctx manager sessionId fixMessage n).1 := by
  obtain ⟨logout, logonAck, heq⟩ := handleLogon_eq ctx manager sessionId fixMessage n
  rw [heq]
  split_ifs with hvalid
  · refine FixSessionManager.authenticate_advances.trans
      ((FixSessionManager.validateSequence_advances fun hzero compId state hcompId hstate =>
        ?_).trans (FixSessionManager.advances_of_numbers
          FixSessionManager.useNextOutboundSequence_numbers))
    have hcompId : compId = String.ofList (senderCompId fixMessage) := by
      simpa [accepted, FixSessionManager.authenticate, hvalid,
        FixSessionManager.setState] using hcompId.symm
    subst hcompId
    have hstate : { manager.stateOf (String.ofList (senderCompId fixMessage)) with
        isLoggedOn := true } = state := by
      simpa [accepted, FixSessionManager.authenticate, hvalid, FixSessionManager.setState,
        FixSessionManager.stateOf] using hstate
    rw [← hstate]
    exact hcounts (hzero ▸ hn) _ (Or.inl rfl)
  · exact FixSessionManager.advances_of_numbers rfl

/-- A frame moves the inbound numbers forward. -/
theorem handleFrame_advances (h : handleFrame ctx manager sessionId fixMessage = some r)
    (hcounts : CountsOn manager sessionId fixMessage) : manager.Advances r.1 := by
  rcases handleFrame_eq h with rfl | ⟨c, htype, rfl⟩
  · exact FixSessionManager.advances_of_numbers (buildNext_numbers _)
  · rcases handleFixMessage_cases ctx manager sessionId fixMessage c with
      hcase | hcase | hcase | ⟨n, hn, hcase | ⟨hlogged, hcase⟩⟩ <;> rw [hcase]
    · exact FixSessionManager.advances_of_numbers rfl
    · exact FixSessionManager.advances_of_numbers rfl
    · exact FixSessionManager.advances_of_numbers (FixSessionManager.handleLogout_numbers.trans
        FixSessionManager.useNextOutboundSequence_numbers)
    · exact handleLogon_advances hn hcounts
    · refine FixSessionManager.Advances.trans (FixSessionManager.validateSequence_advances
        fun hzero compId state hcompId hstate => ?_)
          (FixSessionManager.advances_of_numbers dispatch_numbers)
      have hne := hcounts (hzero ▸ hn) compId (Or.inr hcompId)
      rwa [FixSessionManager.stateOf, hstate] at hne

end FixSession

/-! ## Sample messages -/

namespace FixServer.Sample

def ctx (nextId : OrderID) : HandlerContext :=
  { nextId := nextId, orderIdOf := fun _ => none, now := 0, utcOffset := 0 }

def logon (compId : String) : Message :=
  OutboundMessageBuilder.buildLogon compId.toList "BETA_EXCHANGE".toList 1 30 0

/-- A buy of 3 EURUSD at 10. -/
def newOrderSingle (compId : String) (msgSeqNum : UInt32) : Message :=
  OutboundMessageBuilder.buildMessage compId.toList "BETA_EXCHANGE".toList msgSeqNum ['D']
    (Text.close soh [FixUtils.field 11 ['A'], FixUtils.field 55 "EURUSD".toList,
      FixUtils.field 54 ['1'], FixUtils.field 38 ['3'], FixUtils.field 40 ['2'],
      FixUtils.field 44 "10".toList]) 0

/-- A client logs on. -/
def loggedOn : List ServerEvent := [.loadConfig ["C1"], .accept, .frame 1 (ctx 0) (logon "C1")]

end FixServer.Sample

end BetaTrader
