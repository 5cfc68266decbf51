import BetaTrader.Exchange.SessionSpec
import BetaTrader.Lib.Run

/-!
# Sequence numbers across reconnects and restarts

The manager keeps the numbers of a `CompID` in memory and queues a task with every
change; a logon without a state in memory reads the table behind all queued tasks.
The calls lock a mutex, so they come one after another, in any order and from any
connections.
-/

namespace BetaTrader

/-! ## The table behind the queue -/

/-- `FIX_Sequences`, and the updates that the database worker has yet to execute. -/
structure SequenceDatabase where
  rows : String → Option (UInt32 × UInt32)
  tasks : List (String × UInt32 × UInt32)

namespace SequenceDatabase

/-- The statement of `updateSequenceNumberQuery`. -/
def execute (rows : String → Option (UInt32 × UInt32)) (task : String × UInt32 × UInt32) :
    String → Option (UInt32 × UInt32) :=
  Function.update rows task.1 (some task.2)

/-- The rows once all tasks have been executed. -/
def drained (database : SequenceDatabase) : String → Option (UInt32 × UInt32) :=
  database.tasks.foldl execute database.rows

def drain (database : SequenceDatabase) : SequenceDatabase := ⟨database.drained, []⟩

def enqueue (database : SequenceDatabase) (task : String × UInt32 × UInt32) : SequenceDatabase :=
  { database with tasks := database.tasks ++ [task] }

def executeTask (database : SequenceDatabase) : SequenceDatabase :=
  match database.tasks with
  | [] => database
  | task :: tasks => ⟨execute database.rows task, tasks⟩

@[simp] theorem drained_drain (database : SequenceDatabase) :
    database.drain.drained = database.drained := rfl

@[simp] theorem drained_enqueue (database : SequenceDatabase) (task : String × UInt32 × UInt32) :
    (database.enqueue task).drained = execute database.drained task := by
  simp [drained, enqueue]

@[simp] theorem drained_executeTask (database : SequenceDatabase) :
    database.executeTask.drained = database.drained := by
  unfold executeTask
  split
  · rfl
  · next task tasks htasks => simp [drained, htasks]

end SequenceDatabase

/-! ## The calls -/

inductive SequenceCall where
  | authenticate (sessionId : ConnectionID) (senderCompId : String)
  | validateSequence (sessionId : ConnectionID) (incomingSeqNum : UInt32)
  | useNextOutboundSequence (sessionId : ConnectionID)
  | handleLogout (sessionId : ConnectionID)
  | cleanupConnection (sessionId : ConnectionID)
  /-- The database worker executes a task. -/
  | executeTask
  /-- The queue is drained, and a new manager is made on the same repository. -/
  | restart (validClients : List String)

structure SequenceSystem where
  manager : FixSessionManager
  database : SequenceDatabase
  /-- The numbers that connections of a `CompID` have been given. -/
  sent : List (String × UInt32)
  /-- The `CompID`s whose numbers have been accepted. -/
  accepted : List String

namespace SequenceSystem

/-- A manager for these clients with a new table. -/
def start (validClients : List String) : SequenceSystem where
  manager := (FixSessionManager.empty none).loadConfig validClients
  database := ⟨fun _ => none, []⟩
  sent := []
  accepted := []

/-- The manager with the repository as `getSequenceNumbers` finds it: its task
comes behind all others, and the call waits for it. -/
def attached (σ : SequenceSystem) : FixSessionManager :=
  { σ.manager with seqRepo := some ⟨true, σ.database.drained⟩ }

@[simp] theorem attached_connectionToCompId (σ : SequenceSystem) :
    σ.attached.connectionToCompId = σ.manager.connectionToCompId := rfl

@[simp] theorem attached_sessionStates (σ : SequenceSystem) :
    σ.attached.sessionStates = σ.manager.sessionStates := rfl

/-- `updateSequenceNumbers` for the state that a connection has in a manager. -/
def update (database : SequenceDatabase) (manager : FixSessionManager) (sessionId : ConnectionID)
    (name : SessionState → String) : SequenceDatabase :=
  match manager.getSessionState sessionId with
  | none => database
  | some state => database.enqueue (name state, state.inSeqNum, state.outSeqNum)

def authenticate (σ : SequenceSystem) (sessionId : ConnectionID) (senderCompId : String) :
    SequenceSystem :=
  { σ with
    manager := (σ.attached.authenticate sessionId senderCompId).2
    database :=
      -- the numbers are read if there is no state yet, and what was queued comes first
      if σ.manager.validClients senderCompId ∧ σ.manager.sessionStates senderCompId = none then
        σ.database.drain
      else σ.database }

def validateSequence (σ : SequenceSystem) (sessionId : ConnectionID) (incomingSeqNum : UInt32) :
    SequenceSystem :=
  match σ.attached.validateSequence sessionId incomingSeqNum,
    σ.manager.connectionToCompId sessionId with
  | (true, manager), some compId =>
      { σ with
        manager := manager
        database := update σ.database manager sessionId fun _ => compId
        accepted := σ.accepted ++ [compId] }
  | (_, manager), _ => { σ with manager := manager }

def useNextOutboundSequence (σ : SequenceSystem) (sessionId : ConnectionID) : SequenceSystem :=
  let (current, manager) := σ.attached.useNextOutboundSequence sessionId
  { σ with
    manager := manager
    database := update σ.database manager sessionId SessionState.senderCompId
    sent := σ.sent ++
      (σ.manager.connectionToCompId sessionId).toList.map fun compId => (compId, current) }

def step (σ : SequenceSystem) : SequenceCall → SequenceSystem
  | .authenticate sessionId senderCompId => σ.authenticate sessionId senderCompId
  | .validateSequence sessionId incomingSeqNum => σ.validateSequence sessionId incomingSeqNum
  | .useNextOutboundSequence sessionId => σ.useNextOutboundSequence sessionId
  | .handleLogout sessionId => { σ with manager := σ.attached.handleLogout sessionId }
  | .cleanupConnection sessionId => { σ with manager := σ.attached.cleanupConnection sessionId }
  | .executeTask => { σ with database := σ.database.executeTask }
  | .restart validClients =>
      { σ with
        manager := (FixSessionManager.empty none).loadConfig validClients
        database := σ.database.drain }

def run (σ : SequenceSystem) (calls : List SequenceCall) : SequenceSystem := calls.foldl step σ

/-! ## What is in memory and in the table -/

/-- The pair for a `CompID` in the drained table; a missing row stands for `0` and `1`. -/
def stored (σ : SequenceSystem) (compId : String) : UInt32 × UInt32 :=
  (σ.database.drained compId).getD (0, 1)

/-- The numbers that have been returned to connections of a `CompID`. -/
def numbers (σ : SequenceSystem) (compId : String) : List UInt32 :=
  σ.sent.filterMap fun p => if p.1 = compId then some p.2 else none

/-- The inbound number of a `CompID`, in memory or still in the table. -/
def inbound (σ : SequenceSystem) (compId : String) : UInt32 :=
  match σ.manager.sessionStates compId with
  | none => (σ.stored compId).1
  | some state => state.inSeqNum

/-- The numbers of a `CompID` after so many messages in and out. -/
def pair (received sent : ℕ) : UInt32 × UInt32 := (.ofNat received, .ofNat (sent + 1))

/-- Memory, table and history agree. -/
structure Agrees (σ : SequenceSystem) : Prop where
  mapped : ∀ sessionId compId, σ.manager.connectionToCompId sessionId = some compId →
    (σ.manager.sessionStates compId).isSome
  named : ∀ compId state, σ.manager.sessionStates compId = some state →
    state.senderCompId = compId
  memory : ∀ compId state, σ.manager.sessionStates compId = some state →
    σ.stored compId = (state.inSeqNum, state.outSeqNum)
  counted : ∀ compId,
    σ.stored compId = pair (σ.accepted.count compId) (σ.numbers compId).length
  numbers : ∀ compId, σ.numbers compId =
    (List.range' 1 (σ.numbers compId).length).map UInt32.ofNat

variable {σ σ' : SequenceSystem} {compId : String} {sessionId : ConnectionID}

theorem stored_congr (h : σ'.database.drained = σ.database.drained) :
    σ'.stored compId = σ.stored compId := by
  rw [stored, stored, h]

theorem agrees_start (validClients : List String) : (start validClients).Agrees where
  mapped := by
    intro sessionId compId hcompId
    cases hcompId
  named := by
    intro compId state hstate
    cases hstate
  memory := by
    intro compId state hstate
    cases hstate
  counted := fun compId => rfl
  numbers := fun compId => rfl

/-- What keeps numbers and history, and the names of the states. -/
theorem Agrees.congr (h : σ.Agrees) (hsent : σ'.sent = σ.sent)
    (haccepted : σ'.accepted = σ.accepted)
    (hdrained : σ'.database.drained = σ.database.drained)
    (hmapped : ∀ sessionId compId, σ'.manager.connectionToCompId sessionId = some compId →
      (σ'.manager.sessionStates compId).isSome)
    (hstates : ∀ compId state', σ'.manager.sessionStates compId = some state' →
      state'.senderCompId = compId ∧ σ.stored compId = (state'.inSeqNum, state'.outSeqNum)) :
    σ'.Agrees where
  mapped := hmapped
  named := fun compId state' hstate' => (hstates compId state' hstate').1
  memory := by
    intro compId state' hstate'
    rw [stored_congr hdrained]
    exact (hstates compId state' hstate').2
  counted := by
    intro compId
    rw [stored_congr hdrained, haccepted, SequenceSystem.numbers, hsent]
    exact h.counted compId
  numbers := by
    intro compId
    rw [SequenceSystem.numbers, hsent]
    exact h.numbers compId

/-- A state is written to memory and to the queue, with a message more in the history. -/
theorem Agrees.write (h : σ.Agrees) (state : SessionState) (hname : state.senderCompId = compId)
    (hmapped : σ'.manager.connectionToCompId = σ.manager.connectionToCompId)
    (hstates : σ'.manager.sessionStates =
      Function.update σ.manager.sessionStates compId (some state))
    (hdrained : σ'.database.drained = SequenceDatabase.execute σ.database.drained
      (compId, state.inSeqNum, state.outSeqNum))
    (hother : ∀ other, other ≠ compId → σ'.accepted.count other = σ.accepted.count other ∧
      σ'.numbers other = σ.numbers other)
    (hcounted : (state.inSeqNum, state.outSeqNum) =
      pair (σ'.accepted.count compId) (σ'.numbers compId).length)
    (hnumbers : σ'.numbers compId =
      (List.range' 1 (σ'.numbers compId).length).map UInt32.ofNat) : σ'.Agrees := by
  have hself : σ'.stored compId = (state.inSeqNum, state.outSeqNum) := by
    simp [stored, hdrained, SequenceDatabase.execute]
  have hsame : ∀ other, other ≠ compId → σ'.stored other = σ.stored other := by
    intro other hne
    simp [stored, hdrained, SequenceDatabase.execute, Function.update_of_ne hne]
  refine ⟨fun sessionId other hcompId => ?_, fun other state' hstate' => ?_,
    fun other state' hstate' => ?_, fun other => ?_, fun other => ?_⟩
  · rw [hmapped] at hcompId
    rw [hstates]
    by_cases hne : other = compId
    · simp [hne]
    · simpa [Function.update_of_ne hne] using h.mapped sessionId other hcompId
  · rw [hstates] at hstate'
    by_cases hne : other = compId
    · subst hne
      rw [Function.update_self, Option.some.injEq] at hstate'
      rwa [← hstate']
    · rw [Function.update_of_ne hne] at hstate'
      exact h.named other state' hstate'
  · rw [hstates] at hstate'
    by_cases hne : other = compId
    · subst hne
      rw [Function.update_self, Option.some.injEq] at hstate'
      rw [hself, hstate']
    · rw [Function.update_of_ne hne] at hstate'
      rw [hsame other hne]
      exact h.memory other state' hstate'
  · by_cases hne : other = compId
    · subst hne
      rw [hself, hcounted]
    · rw [hsame other hne, (hother other hne).1, (hother other hne).2]
      exact h.counted other
  · by_cases hne : other = compId
    · subst hne
      exact hnumbers
    · rw [(hother other hne).2]
      exact h.numbers other

/-! ## The calls keep the agreement -/

theorem authenticate_states (manager : FixSessionManager) (sessionId : ConnectionID)
    {senderCompId : String} (hvalid : manager.validClients senderCompId = true) :
    (manager.authenticate sessionId senderCompId).2.connectionToCompId =
        Function.update manager.connectionToCompId sessionId (some senderCompId) ∧
      (manager.authenticate sessionId senderCompId).2.sessionStates =
        Function.update manager.sessionStates senderCompId
          (some { manager.stateOf senderCompId with isLoggedOn := true }) := by
  simp only [FixSessionManager.authenticate, hvalid, if_true]
  exact ⟨rfl, rfl⟩

theorem Agrees.authenticate (h : σ.Agrees) (sessionId : ConnectionID) (senderCompId : String) :
    (σ.authenticate sessionId senderCompId).Agrees := by
  by_cases hvalid : σ.manager.validClients senderCompId = true
  · obtain ⟨hmapped, hstates⟩ := authenticate_states σ.attached sessionId hvalid
    -- a new state starts from what the drained table has
    have hstateOf : (σ.attached.stateOf senderCompId).senderCompId = senderCompId ∧
        σ.stored senderCompId = ((σ.attached.stateOf senderCompId).inSeqNum,
          (σ.attached.stateOf senderCompId).outSeqNum) := by
      cases hstate : σ.manager.sessionStates senderCompId with
      | some state =>
          have heq : σ.attached.stateOf senderCompId = state := by
            rw [FixSessionManager.stateOf, attached, hstate, Option.getD_some]
          rw [heq]
          exact ⟨h.named senderCompId state hstate, h.memory senderCompId state hstate⟩
      | none =>
          have heq : σ.attached.stateOf senderCompId =
              σ.attached.initialState senderCompId := by
            rw [FixSessionManager.stateOf, attached, hstate, Option.getD_none]
          rw [heq]
          exact ⟨rfl, rfl⟩
    refine h.congr rfl rfl ?_ (fun other compId hcompId => ?_) fun compId state hstate => ?_
    · simp only [SequenceSystem.authenticate]
      split_ifs
      · rfl
      · rfl
    · simp only [SequenceSystem.authenticate, hmapped, hstates] at hcompId ⊢
      by_cases hne : compId = senderCompId
      · simp [hne]
      · have hold : σ.manager.connectionToCompId other = some compId := by
          by_cases hsession : other = sessionId
          · subst hsession
            rw [Function.update_self, Option.some.injEq] at hcompId
            exact absurd hcompId.symm hne
          · rwa [Function.update_of_ne hsession] at hcompId
        simpa [Function.update_of_ne hne] using h.mapped other compId hold
    · simp only [SequenceSystem.authenticate, hstates] at hstate
      by_cases hne : compId = senderCompId
      · subst hne
        rw [Function.update_self, Option.some.injEq] at hstate
        rw [← hstate]
        exact hstateOf
      · rw [Function.update_of_ne hne] at hstate
        exact ⟨h.named compId state hstate, h.memory compId state hstate⟩
  · have hsame : σ.attached.authenticate sessionId senderCompId = (false, σ.attached) :=
      FixSessionManager.authenticate_of_not_valid sessionId hvalid
    refine h.congr rfl rfl ?_ ?_ ?_
    · simp only [SequenceSystem.authenticate, hvalid]
      rfl
    · simp only [SequenceSystem.authenticate, hsame]
      exact h.mapped
    · simp only [SequenceSystem.authenticate, hsame]
      exact fun compId state hstate => ⟨h.named compId state hstate, h.memory compId state hstate⟩

/-- A number that is not the next one changes nothing. -/
theorem validateSequence_cases (manager : FixSessionManager) (sessionId : ConnectionID)
    (n : UInt32) : manager.validateSequence sessionId n = (false, manager) ∨
      ∃ compId state, manager.connectionToCompId sessionId = some compId ∧
        manager.sessionStates compId = some state ∧ n = state.inSeqNum + 1 ∧
        manager.validateSequence sessionId n = (true, (manager.setState compId
          { state with inSeqNum := n }).persist compId { state with inSeqNum := n }) := by
  unfold FixSessionManager.validateSequence
  split
  · exact Or.inl rfl
  · next compId hcompId =>
      split
      · exact Or.inl rfl
      · next state hstate =>
          split_ifs with hlogged hnext
          · exact Or.inl rfl
          · exact Or.inr ⟨compId, state, hcompId, hstate, hnext, rfl⟩
          · exact Or.inl rfl

/-- What is written for a connection whose state has just been set. -/
theorem update_setState (manager : FixSessionManager) {database : SequenceDatabase}
    {state : SessionState} {name : SessionState → String} (key : String)
    (hcompId : manager.connectionToCompId sessionId = some compId) :
    update database ((manager.setState compId state).persist key state) sessionId name =
      database.enqueue (name state, state.inSeqNum, state.outSeqNum) := by
  simp [update, FixSessionManager.getSessionState, FixSessionManager.persist,
    FixSessionManager.setState, hcompId]

theorem validateSequence_eq {state : SessionState} {n : UInt32}
    (hcompId : σ.manager.connectionToCompId sessionId = some compId)
    (heq : σ.attached.validateSequence sessionId n = (true, (σ.attached.setState compId
      { state with inSeqNum := n }).persist compId { state with inSeqNum := n })) :
    σ.validateSequence sessionId n =
      { σ with
        manager := (σ.attached.setState compId { state with inSeqNum := n }).persist compId
          { state with inSeqNum := n }
        database := σ.database.enqueue (compId, n, state.outSeqNum)
        accepted := σ.accepted ++ [compId] } := by
  rw [SequenceSystem.validateSequence, heq, hcompId]
  dsimp only
  rw [update_setState σ.attached compId hcompId]

theorem Agrees.validateSequence (h : σ.Agrees) (sessionId : ConnectionID) (n : UInt32) :
    (σ.validateSequence sessionId n).Agrees := by
  rcases validateSequence_cases σ.attached sessionId n with
    heq | ⟨compId, state, hcompId, hstate, hnext, heq⟩
  · refine h.congr ?_ ?_ ?_ ?_ ?_ <;> simp only [SequenceSystem.validateSequence, heq]
    · exact h.mapped
    · exact fun compId state hstate => ⟨h.named compId state hstate, h.memory compId state hstate⟩
  · rw [attached_connectionToCompId] at hcompId
    rw [attached_sessionStates] at hstate
    have hmemory := h.memory compId state hstate
    have hcounted := h.counted compId
    rw [hmemory, pair, Prod.mk.injEq] at hcounted
    rw [validateSequence_eq hcompId heq]
    refine h.write { state with inSeqNum := n } (h.named compId state hstate) rfl rfl ?_
      (fun other hne => ⟨?_, rfl⟩) ?_ (h.numbers compId)
    · rw [SequenceDatabase.drained_enqueue]
    · simp [hne.symm]
    · rw [pair, Prod.mk.injEq]
      refine ⟨?_, hcounted.2⟩
      simp only [List.count_append, List.count_singleton_self, hnext, hcounted.1, UInt32.ofNat_add]
      rfl

theorem numbers_append (compId' : String) (n : UInt32)
    (hsent : σ'.sent = σ.sent ++ [(compId', n)]) (compId : String) :
    σ'.numbers compId = σ.numbers compId ++ if compId' = compId then [n] else [] := by
  rw [numbers, numbers, hsent, List.filterMap_append]
  by_cases h : compId' = compId
  · simp [h]
  · simp [h]

theorem Agrees.useNextOutboundSequence_eq (h : σ.Agrees) {state : SessionState}
    (hcompId : σ.manager.connectionToCompId sessionId = some compId)
    (hstate : σ.manager.sessionStates compId = some state) :
    σ.useNextOutboundSequence sessionId =
      { σ with
        manager := (σ.attached.setState compId
          { state with outSeqNum := state.outSeqNum + 1 }).persist compId
            { state with outSeqNum := state.outSeqNum + 1 }
        database := σ.database.enqueue (compId, state.inSeqNum, state.outSeqNum + 1)
        sent := σ.sent ++ [(compId, state.outSeqNum)] } := by
  rw [SequenceSystem.useNextOutboundSequence, FixSessionManager.useNextOutboundSequence,
    attached_connectionToCompId, hcompId]
  dsimp only
  rw [attached_sessionStates, hstate]
  dsimp only
  rw [update_setState σ.attached _ hcompId, h.named compId state hstate]
  simp

theorem Agrees.useNextOutboundSequence (h : σ.Agrees) (sessionId : ConnectionID) :
    (σ.useNextOutboundSequence sessionId).Agrees := by
  cases hcompId : σ.manager.connectionToCompId sessionId with
  | none =>
      have heq : σ.attached.useNextOutboundSequence sessionId = (1, σ.attached) := by
        rw [FixSessionManager.useNextOutboundSequence, attached_connectionToCompId, hcompId]
      have hstate : σ.attached.getSessionState sessionId = none := by
        rw [FixSessionManager.getSessionState, attached_connectionToCompId, hcompId]
        rfl
      refine h.congr ?_ ?_ ?_ ?_ ?_ <;> simp only [SequenceSystem.useNextOutboundSequence, heq]
      · simp [hcompId]
      · simp [update, hstate]
      · exact h.mapped
      · exact fun compId state hstate =>
          ⟨h.named compId state hstate, h.memory compId state hstate⟩
  | some compId =>
      obtain ⟨state, hstate⟩ := Option.isSome_iff_exists.mp (h.mapped sessionId compId hcompId)
      have hname := h.named compId state hstate
      have huse := h.useNextOutboundSequence_eq hcompId hstate
      have hmemory := h.memory compId state hstate
      have hcounted := h.counted compId
      rw [hmemory, pair, Prod.mk.injEq] at hcounted
      have hsent : (σ.useNextOutboundSequence sessionId).sent =
          σ.sent ++ [(compId, state.outSeqNum)] := by rw [huse]
      have hnumbers := numbers_append compId state.outSeqNum hsent
      rw [huse] at hnumbers ⊢
      refine h.write { state with outSeqNum := state.outSeqNum + 1 } hname rfl rfl ?_
        (fun other hne => ⟨rfl, ?_⟩) ?_ ?_
      · rw [SequenceDatabase.drained_enqueue]
      · rw [hnumbers, if_neg hne.symm, List.append_nil]
      · rw [hnumbers, if_pos rfl, pair, Prod.mk.injEq]
        refine ⟨hcounted.1, ?_⟩
        rw [List.length_append, List.length_singleton, hcounted.2]
        simp [UInt32.ofNat_add]
      · rw [hnumbers, if_pos rfl, List.length_append, List.length_singleton, List.range'_concat,
          List.map_append, ← h.numbers compId]
        simp [hcounted.2, Nat.add_comm]

theorem Agrees.handleLogout (h : σ.Agrees) (sessionId : ConnectionID) :
    (σ.step (.handleLogout sessionId)).Agrees := by
  simp only [step, FixSessionManager.handleLogout, attached_connectionToCompId,
    attached_sessionStates]
  split
  · exact h.congr rfl rfl rfl h.mapped fun compId state hstate =>
      ⟨h.named compId state hstate, h.memory compId state hstate⟩
  · next compId hcompId =>
      split
      · exact h.congr rfl rfl rfl h.mapped fun compId state hstate =>
          ⟨h.named compId state hstate, h.memory compId state hstate⟩
      · next state hstate =>
          refine h.congr rfl rfl rfl (fun other compId' hmapped => ?_)
            fun compId' state' hstate' => ?_
          · have hsome := h.mapped other compId' hmapped
            by_cases hne : compId' = compId
            · simp [hne, FixSessionManager.setState]
            · simpa [FixSessionManager.setState, Function.update_of_ne hne] using hsome
          · by_cases hne : compId' = compId
            · subst hne
              simp only [FixSessionManager.setState, Function.update_self,
                Option.some.injEq] at hstate'
              rw [← hstate']
              exact ⟨h.named compId' state hstate, h.memory compId' state hstate⟩
            · simp only [FixSessionManager.setState, attached_sessionStates,
                Function.update_of_ne hne] at hstate'
              exact ⟨h.named compId' state' hstate', h.memory compId' state' hstate'⟩

theorem Agrees.step (h : σ.Agrees) (call : SequenceCall) : (σ.step call).Agrees := by
  have hsame : ∀ compId state, σ.manager.sessionStates compId = some state →
      state.senderCompId = compId ∧ σ.stored compId = (state.inSeqNum, state.outSeqNum) :=
    fun compId state hstate => ⟨h.named compId state hstate, h.memory compId state hstate⟩
  cases call with
  | authenticate sessionId senderCompId => exact h.authenticate sessionId senderCompId
  | validateSequence sessionId incomingSeqNum => exact h.validateSequence sessionId incomingSeqNum
  | useNextOutboundSequence sessionId => exact h.useNextOutboundSequence sessionId
  | handleLogout sessionId => exact h.handleLogout sessionId
  | cleanupConnection sessionId =>
      refine h.congr rfl rfl rfl (fun other compId hmapped => ?_) hsame
      by_cases hother : other = sessionId
      · simp [SequenceSystem.step, FixSessionManager.cleanupConnection, hother] at hmapped
      · refine h.mapped other compId ?_
        simpa [SequenceSystem.step, FixSessionManager.cleanupConnection,
          Function.update_of_ne hother] using hmapped
  | executeTask => exact h.congr rfl rfl (SequenceDatabase.drained_executeTask _) h.mapped hsame
  | restart validClients =>
      refine h.congr rfl rfl rfl (fun other compId hmapped => ?_) fun compId state hstate => ?_
      · cases hmapped
      · cases hstate

theorem agrees_run (validClients : List String) (calls : List SequenceCall) :
    ((start validClients).run calls).Agrees :=
  List.foldlRecOn calls step (agrees_start validClients) fun _ hσ call _ => hσ.step call

/-! ## The queue behind the repository -/

/-- The repository of a manager has the rows that the table has behind its queue. -/
def Visible (σ : SequenceSystem) (manager : FixSessionManager) : Prop :=
  manager.seqRepo = some ⟨true, σ.database.drained⟩

/-- The calls change the table behind the queue as they change a repository whose
reads and writes are immediate. -/
theorem authenticate_visible (σ : SequenceSystem) (sessionId : ConnectionID)
    (senderCompId : String) : (σ.authenticate sessionId senderCompId).Visible
      (σ.attached.authenticate sessionId senderCompId).2 := by
  have hdrained : (σ.authenticate sessionId senderCompId).database.drained =
      σ.database.drained := by
    unfold SequenceSystem.authenticate
    split_ifs
    · rfl
    · rfl
  rw [Visible, hdrained]
  unfold FixSessionManager.authenticate
  split_ifs
  · rfl
  · rfl

theorem validateSequence_visible (σ : SequenceSystem) (sessionId : ConnectionID) (n : UInt32) :
    (σ.validateSequence sessionId n).Visible (σ.attached.validateSequence sessionId n).2 := by
  rcases validateSequence_cases σ.attached sessionId n with
    heq | ⟨compId, state, hcompId, _, _, heq⟩
  · simp only [Visible, SequenceSystem.validateSequence, heq]
    rfl
  · rw [Visible, validateSequence_eq hcompId heq, heq, SequenceDatabase.drained_enqueue]
    rfl

theorem Agrees.useNextOutboundSequence_visible (h : σ.Agrees) (sessionId : ConnectionID) :
    (σ.useNextOutboundSequence sessionId).Visible
      (σ.attached.useNextOutboundSequence sessionId).2 := by
  cases hcompId : σ.manager.connectionToCompId sessionId with
  | none =>
      simp [Visible, SequenceSystem.useNextOutboundSequence, attached, hcompId, update,
        FixSessionManager.useNextOutboundSequence, FixSessionManager.getSessionState]
  | some compId =>
      obtain ⟨state, hstate⟩ := Option.isSome_iff_exists.mp (h.mapped sessionId compId hcompId)
      have hname := h.named compId state hstate
      rw [Visible, h.useNextOutboundSequence_eq hcompId hstate, SequenceDatabase.drained_enqueue]
      simp [FixSessionManager.useNextOutboundSequence, hcompId, hstate, hname, attached,
        FixSessionManager.persist, FixSessionManager.setState, SequenceDatabase.execute,
        SequenceRepository.updateSequenceNumbers]

/-! ## The numbers of a `CompID` -/

/-- The call makes the manager accept a number of the `CompID`. -/
def Accepts (σ : SequenceSystem) (compId : String) : SequenceCall → Prop
  | .validateSequence sessionId incomingSeqNum =>
      σ.manager.connectionToCompId sessionId = some compId ∧
        (σ.attached.validateSequence sessionId incomingSeqNum).1 = true
  | _ => False

theorem Agrees.inbound_eq (h : σ.Agrees) (compId : String) :
    σ.inbound compId = .ofNat (σ.accepted.count compId) := by
  have hcounted := congrArg Prod.fst (h.counted compId)
  rw [inbound]
  split
  · exact hcounted
  · next state hstate => rwa [h.memory compId state hstate] at hcounted

/-- A call counts for a `CompID` exactly when it is accepted for it. -/
theorem accepted_step (σ : SequenceSystem) (call : SequenceCall) (compId : String) :
    (σ.Accepts compId call → (σ.step call).accepted.count compId = σ.accepted.count compId + 1) ∧
      (¬σ.Accepts compId call → (σ.step call).accepted.count compId = σ.accepted.count compId) := by
  cases call with
  | validateSequence sessionId incomingSeqNum =>
      simp only [Accepts, step, SequenceSystem.validateSequence]
      rcases hvalidate : σ.attached.validateSequence sessionId incomingSeqNum with ⟨answer, manager⟩
      cases answer with
      | false => simp
      | true =>
          cases hcompId : σ.manager.connectionToCompId sessionId with
          | none => simp
          | some other =>
              by_cases hother : other = compId
              · simp [hother]
              · simp [hother]
  | authenticate sessionId senderCompId => exact ⟨False.elim, fun _ => rfl⟩
  | useNextOutboundSequence sessionId => exact ⟨False.elim, fun _ => rfl⟩
  | handleLogout sessionId => exact ⟨False.elim, fun _ => rfl⟩
  | cleanupConnection sessionId => exact ⟨False.elim, fun _ => rfl⟩
  | executeTask => exact ⟨False.elim, fun _ => rfl⟩
  | restart validClients => exact ⟨False.elim, fun _ => rfl⟩

theorem count_le_run (σ : SequenceSystem) (calls : List SequenceCall) (compId : String) :
    σ.accepted.count compId ≤ (σ.run calls).accepted.count compId := by
  induction calls generalizing σ with
  | nil => exact le_rfl
  | cons call calls ih =>
      refine le_trans ?_ (ih (σ.step call))
      by_cases haccepts : σ.Accepts compId call
      · rw [(σ.accepted_step call compId).1 haccepts]
        exact Nat.le_succ _
      · exact ((σ.accepted_step call compId).2 haccepts).ge

/-- Fewer than `2^32` messages have been sent to a `CompID`, and received from it. -/
def FewMessages (σ : SequenceSystem) : Prop :=
  ∀ compId, (σ.numbers compId).length < 2 ^ 32 ∧ σ.accepted.count compId < 2 ^ 32

/-- The numbers of all `CompID`s over a sequence of calls. -/
structure NumbersContinue (validClients : List String) (calls : List SequenceCall) : Prop where
  sent : ∀ compId, (((start validClients).run calls).numbers compId).map UInt32.toNat =
    List.range' 1 (((start validClients).run calls).numbers compId).length
  inbound : ∀ before call after, calls = before ++ call :: after → ∀ compId,
    let σ := (start validClients).run before
    (σ.Accepts compId call →
      ((σ.step call).inbound compId).toNat = (σ.inbound compId).toNat + 1) ∧
    (¬σ.Accepts compId call → (σ.step call).inbound compId = σ.inbound compId)
  drained : ∀ before after, calls = before ++ after → ∀ compId state,
    ((start validClients).run before).manager.sessionStates compId = some state →
    (((start validClients).run before).database.drain.rows compId).getD (0, 1) =
      (state.inSeqNum, state.outSeqNum)

/-- The numbers of a `CompID` go on over connections and restarts. -/
theorem numbers_continue (validClients : List String) {calls : List SequenceCall}
    (hfew : ((start validClients).run calls).FewMessages) :
    NumbersContinue validClients calls where
  sent := by
    intro compId
    have hagrees := agrees_run validClients calls
    have hlength := (hfew compId).1
    conv_lhs => rw [hagrees.numbers compId]
    rw [List.map_map]
    refine (List.map_congr_left fun n hn => ?_).trans (List.map_id _)
    obtain ⟨_, hle⟩ := List.mem_range'_1.mp hn
    exact UInt32.toNat_ofNat_of_lt' (by simp only [UInt32.size]; omega)
  inbound := by
    rintro before call after rfl compId
    have hagrees := agrees_run validClients before
    have hstep := hagrees.step call
    have hcount := (hfew compId).2
    rw [run, List.foldl_append, List.foldl_cons] at hcount
    have hle := count_le_run (((start validClients).run before).step call) after compId
    obtain ⟨haccepts, hnot⟩ := ((start validClients).run before).accepted_step call compId
    refine ⟨fun h => ?_, fun h => ?_⟩
    · rw [hstep.inbound_eq, hagrees.inbound_eq, haccepts h]
      have hlt := (haccepts h ▸ hle).trans_lt hcount
      rw [UInt32.toNat_ofNat_of_lt' hlt, UInt32.toNat_ofNat_of_lt' (Nat.lt_of_succ_lt hlt)]
    · rw [hstep.inbound_eq, hagrees.inbound_eq, hnot h]
  drained := by
    rintro before after rfl compId state hstate
    exact (agrees_run validClients before).memory compId state hstate

theorem fewMessages_of_length {σ : SequenceSystem} (hsent : σ.sent.length < 2 ^ 32)
    (haccepted : σ.accepted.length < 2 ^ 32) : σ.FewMessages := fun _ =>
  ⟨(List.length_filterMap_le _ _).trans_lt hsent, List.count_le_length.trans_lt haccepted⟩

/-- A client comes back over another connection after a restart. -/
def Sample.calls : List SequenceCall :=
  [.authenticate 1 "C1", .validateSequence 1 1, .useNextOutboundSequence 1, .executeTask,
    .restart ["C1"], .authenticate 2 "C1", .validateSequence 2 2, .useNextOutboundSequence 2]

theorem numbers_continue_sample : NumbersContinue ["C1"] Sample.calls :=
  numbers_continue ["C1"] (fewMessages_of_length (by decide) (by decide))

end SequenceSystem

end BetaTrader
