import BetaTrader.Exchange.Logons

/-!
# Logged on and connected

A `CompID` should be flagged as logged on exactly while some registered connection
is logged on under it.  A disconnect tells the manager nothing, and a Logout takes
the flag of one `CompID` although others may still be in use.
-/

namespace BetaTrader

namespace LiveServer

/-- The flags are those of the registered connections that are logged on, and a
mapping is that of a registered connection. -/
structure LoggedOnMeansConnected (s : LiveServer) : Prop where
  flag : ∀ compId, s.server.manager.flag compId = true ↔
    ∃ sessionId, s.Registered sessionId ∧ compId ∈ s.logons sessionId
  mapping : ∀ sessionId compId, s.server.manager.connectionToCompId sessionId = some compId →
    s.Registered sessionId ∧ compId ∈ s.logons sessionId

/-- The `CompID`s of the connection are in use elsewhere, unless it is the one the
connection is mapped to, and that one is not. -/
def LogsOutLast (s : LiveServer) (sessionId : ConnectionID) : Prop :=
  ∀ compId ∈ s.logons sessionId,
    s.server.manager.connectionToCompId sessionId ≠ some compId ↔
      ∃ other, other ≠ sessionId ∧ s.Registered other ∧ compId ∈ s.logons other

/-- A number is used again, and a connection goes, only without a mapping; a Logout
is that of the last connection. -/
def KeepsTrack (s : LiveServer) : ServerEvent → Prop
  | .accept => s.server.manager.connectionToCompId s.server.nextSessionId = none
  | .frame sessionId _ fixMessage =>
      s.Registered sessionId → FixSession.isLogout fixMessage = true → s.LogsOutLast sessionId
  | .disconnect sessionId => s.server.manager.connectionToCompId sessionId = none
  | _ => True

/-- The condition under which an event leaves the logons right. -/
def Tidy (s : LiveServer) (event : ServerEvent) : Prop :=
  s.server.running = true → s.KeepsTrack event

/-- What carries the property from step to step. -/
def Tracked (s : LiveServer) : Prop := s.LoggedOnMeansConnected ∧ s.MapsLatest

variable {s s' : LiveServer} {sessionId : ConnectionID}

theorem LoggedOnMeansConnected.of_same (h : s.LoggedOnMeansConnected)
    (hregistered : s'.Registered = s.Registered) (hlogons : s'.logons = s.logons)
    (hsame : s.server.manager.SameLogons s'.server.manager) : s'.LoggedOnMeansConnected := by
  refine ⟨fun compId => ?_, fun sessionId compId hmap => ?_⟩
  · rw [hsame.flag, hregistered, hlogons]
    exact h.flag compId
  · rw [hregistered, hlogons]
    apply h.mapping
    rwa [← hsame.mapping]

theorem Tracked.of_same (h : s.Tracked) (hregistered : s'.Registered = s.Registered)
    (hlogons : s'.logons = s.logons)
    (hsame : s.server.manager.SameLogons s'.server.manager) : s'.Tracked :=
  ⟨h.1.of_same hregistered hlogons hsame, h.2.of_same hregistered hlogons hsame⟩

/-- Without a mapping a connection has no logons that count. -/
theorem Tracked.logons_eq_nil (h : s.Tracked) (hregistered : s.Registered sessionId)
    (hmap : s.server.manager.connectionToCompId sessionId = none) : s.logons sessionId = [] := by
  rw [← List.head?_eq_none_iff, ← h.2 sessionId hregistered, hmap]

theorem tracked_start (seqRepo : Option SequenceRepository) : (start seqRepo).Tracked := by
  refine ⟨⟨fun compId => ?_, fun sessionId compId hmap => ?_⟩, mapsLatest_start seqRepo⟩
  · simp [start, FixServer.start, FixSessionManager.empty, FixSessionManager.flag]
  · simp [start, FixServer.start, FixSessionManager.empty] at hmap

/-! ## Accepts and disconnects -/

theorem tracked_accept (hrunning : s.server.running = true) (h : s.Tracked)
    (hfresh : s.server.manager.connectionToCompId s.server.nextSessionId = none) :
    (s.step .accept).Tracked := by
  rw [accept_eq hrunning]
  have hlogons : ∀ other compId, s.Registered other → compId ∈ s.logons other →
      other ≠ s.server.nextSessionId := by
    rintro other compId hother hcompId rfl
    rw [h.logons_eq_nil hother hfresh] at hcompId
    exact List.not_mem_nil hcompId
  refine ⟨⟨fun compId => ?_, fun other compId hmap => ?_⟩, h.2.accept hfresh⟩
  · apply (h.1.flag compId).trans
    constructor
    · rintro ⟨other, hother, hcompId⟩
      refine ⟨other, registered_accept.mpr (Or.inr hother), ?_⟩
      simpa only [Function.update_of_ne (hlogons other compId hother hcompId)] using hcompId
    · rintro ⟨other, hother, hcompId⟩
      by_cases hnew : other = s.server.nextSessionId
      · simp [hnew] at hcompId
      · simp only [Function.update_of_ne hnew] at hcompId
        exact ⟨other, (registered_accept.mp hother).resolve_left hnew, hcompId⟩
  · obtain ⟨hother, hcompId⟩ := h.1.mapping other compId hmap
    refine ⟨registered_accept.mpr (Or.inr hother), ?_⟩
    simpa only [Function.update_of_ne (hlogons other compId hother hcompId)] using hcompId

theorem fresh_of_tracked (hrunning : s.server.running = true)
    (h : (s.step .accept).LoggedOnMeansConnected) :
    s.server.manager.connectionToCompId s.server.nextSessionId = none := by
  rw [accept_eq hrunning] at h
  cases hmap : s.server.manager.connectionToCompId s.server.nextSessionId with
  | none => rfl
  | some compId =>
      have hcompId := (h.mapping s.server.nextSessionId compId hmap).2
      simp at hcompId

theorem tracked_disconnect (hrunning : s.server.running = true) (h : s.Tracked)
    (hmap : s.server.manager.connectionToCompId sessionId = none) :
    (s.step (.disconnect sessionId)).Tracked := by
  rw [disconnect_eq hrunning]
  have hlogons : ∀ other compId, s.Registered other → compId ∈ s.logons other →
      other ≠ sessionId := by
    rintro other compId hother hcompId rfl
    rw [h.logons_eq_nil hother hmap] at hcompId
    exact List.not_mem_nil hcompId
  refine ⟨⟨fun compId => ?_, fun other compId hcompId => ?_⟩, h.2.unregister sessionId⟩
  · apply (h.1.flag compId).trans
    constructor
    · rintro ⟨other, hother, hcompId⟩
      have hne := hlogons other compId hother hcompId
      refine ⟨other, registered_unregister.mpr ⟨hne, hother⟩, ?_⟩
      simpa only [Function.update_of_ne hne] using hcompId
    · rintro ⟨other, hother, hcompId⟩
      obtain ⟨hne, hregistered⟩ := registered_unregister.mp hother
      simp only [Function.update_of_ne hne] at hcompId
      exact ⟨other, hregistered, hcompId⟩
  · obtain ⟨hother, hlogon⟩ := h.1.mapping other compId hcompId
    have hne := hlogons other compId hother hlogon
    refine ⟨registered_unregister.mpr ⟨hne, hother⟩, ?_⟩
    simpa only [Function.update_of_ne hne] using hlogon

theorem unmapped_of_tracked (hrunning : s.server.running = true)
    (h : (s.step (.disconnect sessionId)).LoggedOnMeansConnected) :
    s.server.manager.connectionToCompId sessionId = none := by
  rw [disconnect_eq hrunning] at h
  cases hmap : s.server.manager.connectionToCompId sessionId with
  | none => rfl
  | some compId =>
      obtain ⟨hregistered, _⟩ := h.mapping sessionId compId hmap
      exact absurd rfl (registered_unregister.mp hregistered).1

/-! ## Frames -/

section Frames

variable {ctx : HandlerContext} {fixMessage : Message} {r : FixSessionManager × List SessionEffect}
  {compId : String}

/-- A logon adds the `CompID` to those of its connection. -/
theorem loggedOn_logon (h : s.Tracked) (hsession : s.Registered sessionId)
    (hregistered : s'.Registered = s.Registered)
    (hlogons : s'.logons = Function.update s.logons sessionId (compId :: s.logons sessionId))
    (hmapping : s'.server.manager.connectionToCompId =
      Function.update s.server.manager.connectionToCompId sessionId (some compId))
    (hflag : s'.server.manager.flag = Function.update s.server.manager.flag compId true) :
    s'.LoggedOnMeansConnected := by
  have hmem : ∀ other name, name ∈ s'.logons other ↔
      other = sessionId ∧ name = compId ∨ name ∈ s.logons other := by
    intro other name
    by_cases hother : other = sessionId
    · simp [hlogons, hother]
    · simp [hlogons, hother]
  refine ⟨fun name => ?_, fun other name hmap => ?_⟩
  · rw [hflag, hregistered]
    by_cases hname : name = compId
    · subst hname
      rw [Function.update_self]
      exact iff_of_true rfl ⟨sessionId, hsession, (hmem _ _).mpr (Or.inl ⟨rfl, rfl⟩)⟩
    · rw [Function.update_of_ne hname, h.1.flag]
      simp [hmem, hname]
  · rw [hmapping] at hmap
    rw [hregistered, hmem]
    by_cases hother : other = sessionId
    · subst hother
      rw [Function.update_self, Option.some.injEq] at hmap
      exact ⟨hsession, Or.inl ⟨rfl, hmap.symm⟩⟩
    · rw [Function.update_of_ne hother] at hmap
      exact (h.1.mapping other name hmap).imp_right Or.inr

/-- A Logout clears one flag and all `CompID`s of its connection. -/
theorem loggedOn_logout_iff (h : s.Tracked) (hsession : s.Registered sessionId)
    (hregistered : s'.Registered = s.Registered)
    (hlogons : s'.logons = Function.update s.logons sessionId [])
    (hmapping : s'.server.manager.connectionToCompId =
      Function.update s.server.manager.connectionToCompId sessionId none)
    (hflag : s'.server.manager.flag = fun compId =>
      if s.server.manager.connectionToCompId sessionId = some compId then false
      else s.server.manager.flag compId) :
    s'.LoggedOnMeansConnected ↔ s.LogsOutLast sessionId := by
  have hothers : ∀ compId, (∃ other, s'.Registered other ∧ compId ∈ s'.logons other) ↔
      ∃ other, other ≠ sessionId ∧ s.Registered other ∧ compId ∈ s.logons other := by
    intro compId
    rw [hregistered, hlogons]
    refine exists_congr fun other => ?_
    by_cases hother : other = sessionId
    · simp [hother]
    · simp [hother]
  have hflag' : ∀ compId, s'.server.manager.flag compId = true ↔
      s.server.manager.connectionToCompId sessionId ≠ some compId ∧
        s.server.manager.flag compId = true := by
    intro compId
    simp only [hflag]
    split_ifs with hmap <;> simp [hmap]
  have hmine : ∀ compId ∈ s.logons sessionId, s.server.manager.flag compId = true :=
    fun compId hcompId => (h.1.flag compId).mpr ⟨sessionId, hsession, hcompId⟩
  constructor
  · intro hafter compId hcompId
    rw [← hothers compId, ← hafter.flag compId, hflag']
    exact (and_iff_left (hmine compId hcompId)).symm
  · intro hlast
    refine ⟨fun compId => ?_, fun other compId hmap => ?_⟩
    · rw [hflag', hothers]
      by_cases hcompId : compId ∈ s.logons sessionId
      · rw [and_iff_left (hmine compId hcompId)]
        exact hlast compId hcompId
      · have hmap : s.server.manager.connectionToCompId sessionId ≠ some compId :=
          fun hmap => hcompId (h.1.mapping sessionId compId hmap).2
        rw [and_iff_right hmap, h.1.flag]
        refine exists_congr fun other => ?_
        constructor
        · rintro ⟨hother, hmem⟩
          refine ⟨?_, hother, hmem⟩
          rintro rfl
          exact hcompId hmem
        · exact fun hother => hother.2
    · rw [hmapping] at hmap
      by_cases hother : other = sessionId
      · simp [hother] at hmap
      · rw [Function.update_of_ne hother] at hmap
        rw [hregistered, hlogons, Function.update_of_ne hother]
        exact h.1.mapping other compId hmap

theorem loggedOn_frame (hrunning : s.server.running = true) (h : s.Tracked)
    (sessionId : ConnectionID) (ctx : HandlerContext) (fixMessage : Message) :
    (s.step (.frame sessionId ctx fixMessage)).LoggedOnMeansConnected ↔
      s.KeepsTrack (.frame sessionId ctx fixMessage) := by
  cases frame_step hrunning sessionId ctx fixMessage with
  | quiet hignored hregistered hlogons hsame =>
      refine iff_of_true (h.1.of_same hregistered hlogons hsame) fun hsession hlogout => ?_
      exact absurd hlogout (by simp [hignored hsession])
  | handled hsession hregistered r hframe hmanager hlogons =>
      cases FixSession.handleFrame_logons hframe with
      | logout hlogout hmapping hflag _ =>
          rw [logonsOfFrame, if_pos hlogout] at hlogons
          rw [← hmanager] at hmapping hflag
          apply (loggedOn_logout_iff h hsession hregistered hlogons hmapping hflag).trans
          exact ⟨fun hlast _ _ => hlast, fun hlast => hlast hsession hlogout⟩
      | logon hlogon hlogout hmapping hflag _ =>
          rw [logonsOfFrame, hlogout, hlogon] at hlogons
          rw [← hmanager] at hmapping hflag
          refine iff_of_true (loggedOn_logon h hsession hregistered hlogons hmapping hflag) ?_
          exact fun _ hother => absurd hother (by simp [hlogout])
      | other hlogout hlogon hsame _ =>
          rw [logonsOfFrame, hlogout, hlogon] at hlogons
          rw [← hmanager] at hsame
          refine iff_of_true (h.1.of_same hregistered (hlogons.trans ?_) hsame) ?_
          · exact Function.update_eq_self sessionId s.logons
          · exact fun _ hother => absurd hother (by simp [hlogout])

end Frames

/-! ## Runs -/

theorem tracked_step (h : s.Tracked) (event : ServerEvent) :
    (s.Tidy event → (s.step event).Tracked) ∧
      ((s.step event).LoggedOnMeansConnected → s.Tidy event) := by
  by_cases hrunning : s.server.running = true
  · have htidy : s.Tidy event ↔ s.KeepsTrack event := forall_prop_of_true hrunning
    rw [htidy]
    cases event with
    | accept => exact ⟨tracked_accept hrunning h, fresh_of_tracked hrunning⟩
    | disconnect sessionId => exact ⟨tracked_disconnect hrunning h, unmapped_of_tracked hrunning⟩
    | frame sessionId ctx fixMessage =>
        have hiff := loggedOn_frame hrunning h sessionId ctx fixMessage
        exact ⟨fun htrack => ⟨hiff.mpr htrack, h.2.frame hrunning sessionId ctx fixMessage⟩,
          hiff.mp⟩
    | malformed sessionId ctx error =>
        obtain ⟨hregistered, hlogons, hsame⟩ := quiet_step (s := s) hrunning
          (.malformed sessionId ctx error) nofun nofun nofun
        exact ⟨fun _ => h.of_same hregistered hlogons hsame, fun _ => trivial⟩
    | outbound sessionId =>
        obtain ⟨hregistered, hlogons, hsame⟩ := quiet_step (s := s) hrunning
          (.outbound sessionId) nofun nofun nofun
        exact ⟨fun _ => h.of_same hregistered hlogons hsame, fun _ => trivial⟩
    | loadConfig validClients =>
        obtain ⟨hregistered, hlogons, hsame⟩ := quiet_step (s := s) hrunning
          (.loadConfig validClients) nofun nofun nofun
        exact ⟨fun _ => h.of_same hregistered hlogons hsame, fun _ => trivial⟩
  · have hstay : s.step event = s := if_neg hrunning
    rw [hstay]
    exact ⟨fun _ => h, fun _ hrun => absurd hrun hrunning⟩

/-- Logged on means connected all along exactly the runs in which no connection goes,
and no number is used again, with a mapping, and a Logout clears what its connection
alone was logged on as. -/
theorem loggedOn_means_connected_iff (seqRepo : Option SequenceRepository)
    (events : List ServerEvent) :
    TotalRun.Always step LoggedOnMeansConnected (start seqRepo) events ↔
      TotalRun.Meets step Tidy (start seqRepo) events :=
  TotalRun.always_iff_meets (fun _ h => h.1) (fun _ event h => tracked_step h event)
    (tracked_start seqRepo)

/-- A client logs on, and its connection ends. -/
def Sample.dropped : List ServerEvent := FixServer.Sample.loggedOn ++ [.disconnect 1]

/-- The mapping of the connection is still there. -/
theorem mapping_outlives_connection :
    ¬TotalRun.Always step LoggedOnMeansConnected (start none) Sample.dropped := by
  intro h
  have hmap : (Sample.dropped.foldl step (start none)).server.manager.connectionToCompId 1 =
      some "C1" := by decide +kernel
  obtain ⟨hregistered, _⟩ := h.last.mapping 1 "C1" hmap
  have hgone : ((Sample.dropped.foldl step (start none)).server.sessions 1).isSome = false := by
    decide +kernel
  exact Bool.false_ne_true (hgone.symm.trans hregistered)

end LiveServer

end BetaTrader
