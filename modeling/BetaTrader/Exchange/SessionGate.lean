import BetaTrader.Exchange.Logons

/-!
# Nothing before logon

A session hands commands and market data requests to the trading core only while it
is logged on.  The manager knows a session by the number of its connection, and the
numbers come round after 2^32 connections, while the mapping of a connection that
has ended without a Logout stays.
-/

namespace BetaTrader

namespace LiveServer

variable {s s' : LiveServer}

/-- The connection of a frame that hands something to the trading core has been
accepted for a `CompID` since its last Logout. -/
def Gated (s : LiveServer) : ServerEvent → Prop
  | .frame sessionId ctx fixMessage => s.server.running = true →
      FixSession.SubmitsNothing (s.server.receive sessionId ctx fixMessage).2 ∨
        s.logons sessionId ≠ []
  | _ => True

theorem gated_of_mapsLatest (h : s.MapsLatest) (event : ServerEvent) : s.Gated event := by
  have hnothing : FixSession.SubmitsNothing [] :=
    fun effect heffect => absurd heffect List.not_mem_nil
  cases event with
  | frame sessionId ctx fixMessage =>
      intro _
      rw [FixServer.receive]
      cases hconnection : s.server.sessions sessionId with
      | none => exact Or.inl hnothing
      | some connection =>
          cases hframe : FixSession.handleFrame ctx s.server.manager sessionId fixMessage with
          | none => exact Or.inl hnothing
          | some r =>
              cases FixSession.handleFrame_logons hframe with
              | logout _ _ _ hsubmits => exact Or.inl hsubmits
              | logon _ _ _ _ hsubmits => exact Or.inl hsubmits
              | other _ _ _ hsubmits =>
                  refine hsubmits.symm.imp id fun hlogged hnil => ?_
                  have hmap := h sessionId (by simp [Registered, hconnection])
                  rw [hnil] at hmap
                  simp [FixSession.isLoggedOn, FixSessionManager.getSessionState, hmap] at hlogged
  | _ => trivial

/-- As long as no number is used again while it has a mapping, a session hands on
nothing before it is logged on and nothing after it has logged out. -/
theorem gated_of_fresh {seqRepo : Option SequenceRepository} {events : List ServerEvent}
    (h : TotalRun.Meets step NumbersFresh (start seqRepo) events) :
    TotalRun.Meets step Gated (start seqRepo) events :=
  TotalRun.meets_of_inv MapsLatest (fun _ event hs hfresh => ⟨hs.step hfresh,
    gated_of_mapsLatest hs event⟩) (mapsLatest_start seqRepo) h

theorem gated_of_fresh_sample :
    TotalRun.Meets step Gated (start none) FixServer.Sample.loggedOn := by
  apply gated_of_fresh
  refine ⟨nofun, fun _ _ => ?_, nofun, trivial⟩
  decide +kernel

/-! ## Connection numbers -/

/-- Registered and mapped numbers have been given out. -/
structure Numbered (s : LiveServer) : Prop where
  next : s.server.nextSessionId = connectionNumber s.server.accepted
  registered : ∀ sessionId, s.Registered sessionId →
    ∃ n < s.server.accepted, sessionId = connectionNumber n
  mapped : ∀ sessionId compId, s.server.manager.connectionToCompId sessionId = some compId →
    ∃ n < s.server.accepted, sessionId = connectionNumber n

/-- Only an accept changes the numbering. -/
theorem numbering_step {event : ServerEvent} (haccept : event ≠ .accept) :
    (s.step event).server.nextSessionId = s.server.nextSessionId ∧
      (s.step event).server.accepted = s.server.accepted := by
  unfold step FixServer.step
  split_ifs with hrunning
  · cases event with
    | accept => exact absurd rfl haccept
    | frame sessionId ctx fixMessage =>
        dsimp only
        unfold FixServer.receive
        split
        · exact ⟨rfl, rfl⟩
        · split <;> exact ⟨rfl, rfl⟩
    | malformed sessionId ctx error =>
        dsimp only
        unfold FixServer.rejectMalformed
        split <;> exact ⟨rfl, rfl⟩
    | disconnect sessionId => exact ⟨rfl, rfl⟩
    | outbound sessionId =>
        dsimp only
        unfold FixServer.sendTo
        split <;> exact ⟨rfl, rfl⟩
    | loadConfig validClients => exact ⟨rfl, rfl⟩
  · exact ⟨rfl, rfl⟩

theorem Numbered.of_subset (h : s.Numbered) {event : ServerEvent} (haccept : event ≠ .accept)
    (hregistered : ∀ sessionId, (s.step event).Registered sessionId → s.Registered sessionId)
    (hmapped : ∀ sessionId compId,
      (s.step event).server.manager.connectionToCompId sessionId = some compId →
        s.server.manager.connectionToCompId sessionId = some compId ∨ s.Registered sessionId) :
    (s.step event).Numbered := by
  obtain ⟨hnext, haccepted⟩ := numbering_step (s := s) haccept
  refine ⟨by rw [hnext, haccepted, h.next], fun sessionId hsession => ?_,
    fun sessionId compId hmap => ?_⟩
  · rw [haccepted]
    exact h.registered sessionId (hregistered sessionId hsession)
  · rw [haccepted]
    rcases hmapped sessionId compId hmap with hmap | hsession
    · exact h.mapped sessionId compId hmap
    · exact h.registered sessionId hsession

theorem Numbered.of_same (h : s.Numbered) {event : ServerEvent} (haccept : event ≠ .accept)
    (hregistered : (s.step event).Registered = s.Registered)
    (hsame : s.server.manager.SameLogons (s.step event).server.manager) :
    (s.step event).Numbered := by
  refine h.of_subset haccept (fun sessionId hsession => ?_) fun sessionId compId hmap => Or.inl ?_
  · rwa [← hregistered]
  · rwa [← hsame.mapping]

theorem Numbered.accept (h : s.Numbered) {logons : ConnectionID → List String} :
    Numbered ⟨s.server.accept, logons⟩ where
  next := (congrArg (· + 1) h.next).trans (connectionNumber_succ s.server.accepted).symm
  registered := by
    intro sessionId hsession
    rcases registered_accept.mp hsession with rfl | hsession
    · exact ⟨s.server.accepted, Nat.lt_succ_self _, h.next⟩
    · obtain ⟨n, hn, heq⟩ := h.registered sessionId hsession
      exact ⟨n, hn.trans (Nat.lt_succ_self _), heq⟩
  mapped := by
    intro sessionId compId hmap
    obtain ⟨n, hn, heq⟩ := h.mapped sessionId compId hmap
    exact ⟨n, hn.trans (Nat.lt_succ_self _), heq⟩

theorem Numbered.frame (h : s.Numbered) (hrunning : s.server.running = true)
    (sessionId : ConnectionID) (ctx : HandlerContext) (fixMessage : Message) :
    (s.step (.frame sessionId ctx fixMessage)).Numbered := by
  cases frame_step hrunning sessionId ctx fixMessage with
  | quiet _ hregistered _ hsame => exact h.of_same nofun hregistered hsame
  | handled hsession hregistered r hframe hmanager _ =>
      refine h.of_subset nofun (fun other hother => hregistered ▸ hother) ?_
      intro other compId hmap
      rw [hmanager] at hmap
      by_cases hother : other = sessionId
      · exact Or.inr (hother ▸ hsession)
      · cases FixSession.handleFrame_logons hframe with
        | logout _ hmapping _ _ =>
            rw [hmapping, Function.update_of_ne hother] at hmap
            exact Or.inl hmap
        | logon _ _ hmapping _ _ =>
            rw [hmapping, Function.update_of_ne hother] at hmap
            exact Or.inl hmap
        | other _ _ hsame _ => exact Or.inl (hsame.mapping ▸ hmap)

theorem Numbered.step (h : s.Numbered) (event : ServerEvent) : (s.step event).Numbered := by
  by_cases hrunning : s.server.running = true
  · by_cases haccept : event = .accept
    · rw [haccept, accept_eq hrunning]
      exact h.accept
    rcases event_cases hrunning event with
      heq | ⟨sessionId, rfl⟩ | ⟨sessionId, ctx, fixMessage, rfl⟩ | ⟨hregistered, _, hsame⟩
    · exact absurd heq haccept
    · refine h.of_subset nofun (fun other hother => ?_) fun _ _ hmap => Or.inl ?_
      · rw [disconnect_eq hrunning] at hother
        exact (registered_unregister.mp hother).2
      · rwa [disconnect_eq hrunning] at hmap
    · exact h.frame hrunning sessionId ctx fixMessage
    · exact h.of_same haccept hregistered hsame
  · have hstay : s.step event = s := if_neg hrunning
    rwa [hstay]

theorem numbered_start (seqRepo : Option SequenceRepository) : (start seqRepo).Numbered := by
  constructor <;> simp [start, FixServer.start, FixSessionManager.empty, Registered,
    connectionNumber]

/-- There have been fewer than 2^32 connections before. -/
def FewConnections (s : LiveServer) (event : ServerEvent) : Prop :=
  event = .accept → s.server.accepted < 2 ^ 32

theorem Numbered.fresh (h : s.Numbered) (hfew : s.server.accepted < 2 ^ 32) :
    s.server.manager.connectionToCompId s.server.nextSessionId = none := by
  cases hmap : s.server.manager.connectionToCompId s.server.nextSessionId with
  | none => rfl
  | some compId =>
      obtain ⟨n, hn, heq⟩ := h.mapped _ compId hmap
      rw [h.next] at heq
      have hmod : (s.server.accepted + 1) % 2 ^ 32 = (n + 1) % 2 ^ 32 := by
        simpa [connectionNumber] using congrArg UInt32.toNat heq
      omega

/-- The first 2^32 connections have fresh numbers. -/
theorem gated_of_few {seqRepo : Option SequenceRepository} {events : List ServerEvent}
    (h : TotalRun.Meets step FewConnections (start seqRepo) events) :
    TotalRun.Meets step Gated (start seqRepo) events := by
  apply gated_of_fresh
  refine TotalRun.meets_of_inv Numbered (fun s event hs hfew => ?_) (numbered_start seqRepo) h
  exact ⟨hs.step event, fun _ haccept => hs.fresh (hfew haccept)⟩

/-! ## A number that comes round -/

theorem foldl_accepts (hrunning : s.server.running = true) (n : ℕ) :
    ((List.replicate n ServerEvent.accept).foldl step s).server.running = true ∧
      ((List.replicate n ServerEvent.accept).foldl step s).server.manager = s.server.manager ∧
      ((List.replicate n ServerEvent.accept).foldl step s).server.nextSessionId =
        s.server.nextSessionId + UInt32.ofNat n := by
  induction n generalizing s with
  | zero => exact ⟨hrunning, rfl, by simp⟩
  | succ n ih =>
      rw [List.replicate_succ, List.foldl_cons]
      have haccept : s.step .accept = _ := accept_eq hrunning
      obtain ⟨hrunning', hmanager, hnext⟩ := ih (s := s.step .accept) (by rwa [haccept])
      refine ⟨hrunning', by rw [hmanager, haccept]; rfl, ?_⟩
      rw [hnext, haccept, Nat.add_comm n 1, UInt32.ofNat_add, ← UInt32.add_assoc]
      rfl

/-- A client logs on and drops; the number of its connection comes round, and the
new connection enters an order. -/
def Sample.comeRound : List ServerEvent :=
  (FixServer.Sample.loggedOn ++ [.disconnect 1]) ++
    (List.replicate (2 ^ 32 - 1) .accept ++
      [.accept, .frame 1 (FixServer.Sample.ctx 1) (FixServer.Sample.newOrderSingle "C1" 2)])

/-- The first frame of a connection whose number is still mapped. -/
theorem not_gated_accept (hrunning : s.server.running = true) {ctx : HandlerContext}
    {fixMessage : Message} {r : FixSessionManager × List SessionEffect}
    (hframe : FixSession.handleFrame ctx s.server.manager s.server.nextSessionId fixMessage =
      some r)
    (hcommands : SessionEffect.commands r.2 ≠ []) :
    ¬(s.step .accept).Gated (.frame s.server.nextSessionId ctx fixMessage) := by
  rw [accept_eq hrunning]
  intro hgated
  rcases hgated hrunning with hsubmits | hlogons
  · have hsession : s.server.accept.sessions s.server.nextSessionId =
        some ⟨s.server.accepted, true, none⟩ := Function.update_self ..
    have hframe' : FixSession.handleFrame ctx s.server.accept.manager s.server.nextSessionId
        fixMessage = some r := hframe
    rw [FixServer.receive, hsession] at hsubmits
    simp only [hframe'] at hsubmits
    exact hcommands (FixSession.commands_eq_nil hsubmits)
  · exact hlogons (Function.update_self ..)

theorem order_before_logon : ¬TotalRun.Meets step Gated (start none) Sample.comeRound := by
  intro h
  obtain ⟨_, hafter⟩ := TotalRun.meets_append.mp h
  obtain ⟨_, _, hgated, _⟩ := TotalRun.meets_append.mp hafter
  clear h hafter
  generalize hs₀ : (FixServer.Sample.loggedOn ++ [ServerEvent.disconnect 1]).foldl step
    (start none) = s₀ at hgated
  have hrunning₀ : s₀.server.running = true := by rw [← hs₀]; decide +kernel
  have hnext₀ : s₀.server.nextSessionId = 2 := by rw [← hs₀]; decide +kernel
  have hcommands : (FixSession.handleFrame (FixServer.Sample.ctx 1) s₀.server.manager 1
      (FixServer.Sample.newOrderSingle "C1" 2)).map (fun r => (SessionEffect.commands r.2).length) =
        some 1 := by rw [← hs₀]; decide +kernel
  obtain ⟨hrunning, hmanager, hnext⟩ := foldl_accepts hrunning₀ (2 ^ 32 - 1)
  generalize (List.replicate (2 ^ 32 - 1) ServerEvent.accept).foldl step s₀ = s₁ at *
  have hnext₁ : s₁.server.nextSessionId = 1 := by
    rw [hnext, hnext₀]
    decide +kernel
  obtain ⟨r, hr, hlength⟩ := Option.map_eq_some_iff.mp hcommands
  rw [← hmanager, ← hnext₁] at hr
  rw [← hnext₁] at hgated
  refine not_gated_accept hrunning hr (fun hnil => ?_) hgated
  rw [hnil] at hlength
  exact absurd hlength (by decide)

end LiveServer

end BetaTrader
