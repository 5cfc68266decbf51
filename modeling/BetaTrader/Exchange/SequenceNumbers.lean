import BetaTrader.Exchange.SessionSpec

/-!
# One command for each sequence number

A session submits a command whatever `validateSequence` answers, so a message
that comes again is executed again.  As long as the order messages come in
sequence, no number of a `CompID` is used for two commands.
-/

namespace BetaTrader

namespace FixServer

/-- A message that a session that is logged on makes a command from. -/
def IsOrderRequest (ctx : HandlerContext) (fixMessage : Message) : Prop :=
  match FixSession.msgType fixMessage with
  | some 'D' => (BinaryToOrderRequestConverter.convert fixMessage).isSome
  | some 'F' => ∃ request,
      BinaryToCancelOrderRequestConverter.convert ctx.utcOffset fixMessage = some request ∧
        FixSession.orderIdToCancel ctx request ≠ 0
  | some 'G' => ∃ request,
      BinaryToModifyOrderRequestConverter.convert ctx.utcOffset fixMessage = some request ∧
        FixSession.orderIdToModify ctx request ≠ 0
  | _ => False

/-- An order request of a session that is logged on states the next number of
the session, and no counter wraps around. -/
structure InSequence (manager : FixSessionManager) (sessionId : ConnectionID)
    (ctx : HandlerContext) (fixMessage : Message) : Prop where
  next : IsOrderRequest ctx fixMessage → ∀ state,
    manager.getSessionState sessionId = some state → state.isLoggedOn = true →
    ∀ n, FixSession.msgSeqNum fixMessage = some n → n = state.inSeqNum + 1
  counts : FixSession.CountsOn manager sessionId fixMessage

/-- The frames of registered connections are in sequence. -/
def KeepsSequence (server : FixServer) : ServerEvent → Prop
  | .frame sessionId ctx fixMessage =>
      server.running = true → (server.sessions sessionId).isSome →
        InSequence server.manager sessionId ctx fixMessage
  | _ => True

/-- Commands have been submitted for messages with the next number of their
session only, and for no number of a CompID twice. -/
structure SubmitsOnce (server : FixServer) : Prop where
  next : ∀ sub ∈ server.submissions, ∃ state, sub.state = some state ∧
    FixSession.msgSeqNum sub.fixMessage = some (state.inSeqNum + 1)
  once : (server.submissions.map fun sub =>
    (sub.compId, FixSession.msgSeqNum sub.fixMessage)).Nodup

/-- The numbers that commands have been submitted for have been counted. -/
structure Counted (server : FixServer) : Prop extends SubmitsOnce server where
  counted : ∀ sub ∈ server.submissions, ∃ compId name n n', sub.compId = some compId ∧
    FixSession.msgSeqNum sub.fixMessage = some n ∧
    server.manager.numbers compId = some (name, n') ∧ n.toNat ≤ n'.toNat

variable {server server' : FixServer}

/-- What does not submit anything may count on. -/
theorem Counted.advance (h : server.Counted) (hsubmissions : server'.submissions =
    server.submissions) (hmanager : server.manager.Advances server'.manager) :
    server'.Counted where
  next := by
    rw [hsubmissions]
    exact h.next
  once := by
    rw [hsubmissions]
    exact h.once
  counted := by
    intro sub hsub
    obtain ⟨compId, name, n, n', hcompId, hn, hn', hle⟩ := h.counted sub (hsubmissions ▸ hsub)
    obtain ⟨n'', hn'', hle'⟩ := hmanager compId name n' hn'
    exact ⟨compId, name, n, n'', hcompId, hn, hn'', hle.trans hle'⟩

/-- A command for a number that is counted just now. -/
theorem Counted.submit (h : server.Counted) {sub : Submission} {compId : String}
    {state : SessionState} {n : UInt32}
    (hsubmissions : server'.submissions = server.submissions ++ [sub])
    (hmanager : server.manager.Advances server'.manager) (hcompId : sub.compId = some compId)
    (hstate : sub.state = some state) (hn : FixSession.msgSeqNum sub.fixMessage = some n)
    (hnext : n = state.inSeqNum + 1)
    (hold : server.manager.numbers compId = some (state.senderCompId, state.inSeqNum))
    (hnew : server'.manager.numbers compId = some (state.senderCompId, n))
    (hlt : state.inSeqNum.toNat < n.toNat) : server'.Counted where
  next := by
    rw [hsubmissions]
    intro sub' hsub'
    rcases List.mem_append.mp hsub' with hsub' | hsub'
    · exact h.next sub' hsub'
    · rw [List.mem_singleton.mp hsub']
      exact ⟨state, hstate, by rw [hn, hnext]⟩
  once := by
    rw [hsubmissions, List.map_append, List.map_singleton, List.nodup_append]
    refine ⟨h.once, List.nodup_singleton _, fun a ha b hb heq => ?_⟩
    obtain ⟨sub', hsub', rfl⟩ := List.mem_map.mp ha
    rw [List.mem_singleton.mp hb, hcompId, hn, Prod.mk.injEq] at heq
    obtain ⟨compId', name, m, n', hcompId', hm, hcounted, hle⟩ := h.counted sub' hsub'
    -- the same number of the same CompID would have been counted already
    obtain rfl := Option.some.inj (hcompId'.symm.trans heq.1)
    obtain rfl := Option.some.inj (hm.symm.trans heq.2)
    rw [hold, Option.some.injEq, Prod.mk.injEq] at hcounted
    rw [← hcounted.2] at hle
    omega
  counted := by
    rw [hsubmissions]
    intro sub' hsub'
    rcases List.mem_append.mp hsub' with hsub' | hsub'
    · obtain ⟨compId', name, m, n', hcompId', hm, hn', hle⟩ := h.counted sub' hsub'
      obtain ⟨n'', hn'', hle'⟩ := hmanager compId' name n' hn'
      exact ⟨compId', name, m, n'', hcompId', hm, hn'', hle.trans hle'⟩
    · rw [List.mem_singleton.mp hsub']
      exact ⟨compId, state.senderCompId, n, n, hcompId, hn, hnew, le_rfl⟩

theorem isOrderRequest_of_submits {ctx : HandlerContext} {sessionId : ConnectionID}
    {fixMessage : Message} {command : Command Double}
    (h : FixSession.Submits ctx sessionId fixMessage command) :
    IsOrderRequest ctx fixMessage := by
  cases h with
  | newOrder htype hconvert => simp [IsOrderRequest, htype, hconvert]
  | cancelOrder htype hconvert hid => simpa [IsOrderRequest, htype, hconvert] using hid
  | modifyOrder htype hconvert hid => simpa [IsOrderRequest, htype, hconvert] using hid

/-- A frame in sequence is counted before its command is submitted. -/
theorem Counted.receive (h : server.Counted) {sessionId : ConnectionID} (ctx : HandlerContext)
    {fixMessage : Message} (hsequence : (server.sessions sessionId).isSome →
      InSequence server.manager sessionId ctx fixMessage) :
    (server.receive sessionId ctx fixMessage).1.Counted := by
  unfold FixServer.receive
  split
  · exact h
  · next connection hconnection =>
      have hsequence := hsequence (by simp [hconnection])
      split
      · exact h.advance rfl (FixSessionManager.advances_of_numbers rfl)
      · next manager effects hframe =>
          have hadvances := FixSession.handleFrame_advances hframe hsequence.counts
          rcases FixSession.handleFrame_cases hframe with
            hquiet | ⟨n, command, hn, hlogged, heq, hsubmits⟩
          · refine h.advance ?_ hadvances
            have hnone : SessionEffect.commands effects = [] := hquiet.commands
            simp [hnone]
          · rw [Prod.mk.injEq] at heq
            obtain ⟨rfl, rfl⟩ := heq
            obtain ⟨state, hstate, hlogged⟩ := FixSession.exists_of_isLoggedOn hlogged
            have hnext := hsequence.next (isOrderRequest_of_submits hsubmits) state hstate
              hlogged n hn
            obtain ⟨compId, hcompId, hfound, hnumbers⟩ :=
              FixSessionManager.validateSequence_next hstate hlogged hnext
            refine h.submit rfl hadvances hcompId hstate hn hnext ?_ ?_ ?_
            · simp [FixSessionManager.numbers, hfound]
            · rw [hnumbers, Function.update_self]
            · refine FixSessionManager.lt_next hnext fun hzero => ?_
              have hne := hsequence.counts (hzero ▸ hn) compId (Or.inr hcompId)
              rwa [FixSessionManager.stateOf, hfound] at hne

theorem Counted.rejectMalformed (h : server.Counted) (sessionId : ConnectionID)
    (ctx : HandlerContext) (error : String) :
    (server.rejectMalformed sessionId ctx error).Counted := by
  unfold FixServer.rejectMalformed
  split
  · exact h
  · exact h.advance rfl (FixSessionManager.advances_of_numbers
      (FixSession.sendReject_numbers ctx 0 error))

theorem Counted.sendTo (h : server.Counted) (sessionId : ConnectionID) :
    (server.sendTo sessionId).Counted := by
  unfold FixServer.sendTo
  split
  · exact h
  · exact h.advance rfl (FixSessionManager.advances_of_numbers
      FixSessionManager.useNextOutboundSequence_numbers)

theorem Counted.step (h : server.Counted) {event : ServerEvent}
    (hevent : server.KeepsSequence event) : (server.step event).Counted := by
  unfold FixServer.step
  split_ifs with hrunning
  · cases event with
    | accept => exact h.advance rfl (FixSessionManager.advances_of_numbers rfl)
    | frame sessionId ctx fixMessage => exact h.receive ctx (hevent hrunning)
    | malformed sessionId ctx error => exact h.rejectMalformed sessionId ctx error
    | disconnect sessionId => exact h.advance rfl (FixSessionManager.advances_of_numbers rfl)
    | outbound sessionId => exact h.sendTo sessionId
    | loadConfig validClients =>
        exact h.advance rfl (FixSessionManager.advances_of_numbers rfl)
  · exact h

/-- As long as order messages come in sequence, a number leads to one command. -/
theorem submits_once (seqRepo : Option SequenceRepository) {events : List ServerEvent}
    (h : TotalRun.Meets step KeepsSequence (start seqRepo) events) :
    ((start seqRepo).run events).SubmitsOnce := by
  have hinit : (start seqRepo).Counted :=
    ⟨⟨by simp [start], by simp [start]⟩, by simp [start]⟩
  exact (TotalRun.foldl_induction Counted (fun _ _ hs hevent => hs.step hevent) hinit
    h).toSubmitsOnce

theorem inSequence_of_all {manager : FixSessionManager} {sessionId : ConnectionID}
    {ctx : HandlerContext} {fixMessage : Message} {n : UInt32}
    (hn : FixSession.msgSeqNum fixMessage = some n) (hzero : n ≠ 0)
    (hnext : (manager.getSessionState sessionId).all (fun state => n = state.inSeqNum + 1)) :
    InSequence manager sessionId ctx fixMessage where
  next := by
    intro _ state hstate _ m hm
    rw [hstate, Option.all_some, decide_eq_true_eq] at hnext
    rwa [hn, Option.some.injEq, hnext, eq_comm] at hm
  counts := by
    intro h
    exact absurd (Option.some.inj (hn.symm.trans h)) hzero

theorem submits_once_sample :
    ((start none).run (Sample.loggedOn ++
      [.frame 1 (Sample.ctx 1) (Sample.newOrderSingle "C1" 2)])).SubmitsOnce := by
  refine submits_once none ⟨trivial, trivial, fun _ _ => ?_, fun _ _ => ?_, trivial⟩
  · have hn : FixSession.msgSeqNum (Sample.logon "C1") = some 1 := by decide +kernel
    exact inSequence_of_all hn (by decide) (by decide +kernel)
  · have hn : FixSession.msgSeqNum (Sample.newOrderSingle "C1" 2) = some 2 := by decide +kernel
    exact inSequence_of_all hn (by decide) (by decide +kernel)

/-- A frame that comes again is executed again. -/
theorem replay_submits_twice :
    ¬((start none).run (Sample.loggedOn ++
      [.frame 1 (Sample.ctx 1) (Sample.newOrderSingle "C1" 2),
        .frame 1 (Sample.ctx 2) (Sample.newOrderSingle "C1" 2)])).SubmitsOnce := by
  intro h
  have hnodup := h.once
  revert hnodup
  decide +kernel

end FixServer

end BetaTrader
