import BetaTrader.Exchange.SessionSpec

/-!
# Numbers on the wire

A message gets its number under the lock of the session manager and is written
without it, by the thread of the server or by a worker that publishes to the
connection.  Connections are named by how many were accepted before them.
-/

namespace BetaTrader

namespace FixSessionManager

variable {manager manager' : FixSessionManager} {sessionId : ConnectionID} {compId : String}

/-- The number that the next message of the connection gets, if it is mapped. -/
def nextNumber (manager : FixSessionManager) (sessionId : ConnectionID) : Option UInt32 :=
  (manager.getSessionState sessionId).map SessionState.outSeqNum

/-- A mapped `CompID` has a state. -/
def Mapped (manager : FixSessionManager) : Prop :=
  ∀ sessionId compId, manager.connectionToCompId sessionId = some compId →
    (manager.sessionStates compId).isSome = true

/-- Mapped connections stay mapped to the same state or are cleaned up, and no
number falls. -/
structure NumbersGrow (manager manager' : FixSessionManager) : Prop where
  mapped : manager'.Mapped
  grows : ∀ sessionId n', manager'.nextNumber sessionId = some n' →
    ∃ n, manager.nextNumber sessionId = some n ∧ n ≤ n'

/-- The state of a `CompID` is replaced. -/
theorem nextNumber_setState (state : SessionState) (sessionId : ConnectionID) :
    (manager.setState compId state).nextNumber sessionId =
      if manager.connectionToCompId sessionId = some compId then some state.outSeqNum
      else manager.nextNumber sessionId := by
  unfold nextNumber getSessionState setState
  cases hmap : manager.connectionToCompId sessionId with
  | none => simp
  | some other =>
      by_cases h : other = compId
      · simp [h]
      · simp [h]

theorem nextNumber_of_mapped {state : SessionState}
    (hmap : manager.connectionToCompId sessionId = some compId)
    (hstate : manager.sessionStates compId = some state) :
    manager.nextNumber sessionId = some state.outSeqNum := by
  simp [nextNumber, getSessionState, hmap, hstate]

theorem Mapped.setState (h : manager.Mapped) (state : SessionState) :
    (manager.setState compId state).Mapped := by
  intro sessionId other hmap
  by_cases hother : other = compId
  · simp [FixSessionManager.setState, hother]
  · simpa [FixSessionManager.setState, hother] using h sessionId other hmap

theorem NumbersGrow.refl (h : manager.Mapped) : manager.NumbersGrow manager :=
  ⟨h, fun _ n' hn' => ⟨n', hn', UInt32.le_refl n'⟩⟩

/-- A state with a higher number takes the place of the old one. -/
theorem numbersGrow_setState (h : manager.Mapped) (state' : SessionState)
    {state : SessionState} (hstate : manager.sessionStates compId = some state)
    (hle : state.outSeqNum ≤ state'.outSeqNum) :
    manager.NumbersGrow (manager.setState compId state') := by
  refine ⟨h.setState state', fun sessionId n' hn' => ?_⟩
  rw [nextNumber_setState] at hn'
  split_ifs at hn' with hmap
  · rw [← Option.some.inj hn']
    exact ⟨state.outSeqNum, nextNumber_of_mapped hmap hstate, hle⟩
  · exact ⟨n', hn', UInt32.le_refl n'⟩

theorem NumbersGrow.persist (h : manager.NumbersGrow manager') (state : SessionState) :
    manager.NumbersGrow (manager'.persist compId state) := ⟨h.mapped, h.grows⟩

theorem numbersGrow_validateSequence (h : manager.Mapped) (n : UInt32) :
    manager.NumbersGrow (manager.validateSequence sessionId n).2 := by
  unfold validateSequence
  split
  · exact .refl h
  · split
    · exact .refl h
    · next state hstate =>
        split_ifs
        · exact .refl h
        · exact (numbersGrow_setState h { state with inSeqNum := n } hstate
            (UInt32.le_refl _)).persist _
        · exact .refl h

theorem numbersGrow_handleLogout (h : manager.Mapped) :
    manager.NumbersGrow (manager.handleLogout sessionId) := by
  unfold handleLogout
  split
  · exact .refl h
  · split
    · exact .refl h
    · next state hstate => exact numbersGrow_setState h _ hstate (UInt32.le_refl _)

theorem numbersGrow_cleanupConnection (h : manager.Mapped) :
    manager.NumbersGrow (manager.cleanupConnection sessionId) := by
  have hold : ∀ other compId,
      (manager.cleanupConnection sessionId).connectionToCompId other = some compId →
        manager.connectionToCompId other = some compId := by
    intro other compId hmap
    by_cases hother : other = sessionId
    · simp [cleanupConnection, hother] at hmap
    · simpa [cleanupConnection, hother] using hmap
  refine ⟨fun other compId hmap => h other compId (hold other compId hmap), fun other n' hn' => ?_⟩
  obtain ⟨state, hstate, rfl⟩ := Option.map_eq_some_iff.mp hn'
  obtain ⟨compId, hmap, hstate⟩ := Option.bind_eq_some_iff.mp hstate
  exact ⟨_, nextNumber_of_mapped (hold other compId hmap) hstate, UInt32.le_refl _⟩

/-- The number of an accepted connection is that of its `CompID`; the others keep theirs. -/
theorem authenticate_nextNumber (h : manager.Mapped) (sessionId : ConnectionID)
    (hvalid : manager.validClients compId = true) :
    (manager.authenticate sessionId compId).2.Mapped ∧ ∀ other,
      (manager.authenticate sessionId compId).2.nextNumber other =
        if other = sessionId then some (manager.stateOf compId).outSeqNum
        else manager.nextNumber other := by
  simp only [authenticate, hvalid, if_true]
  constructor
  · intro other name hmap
    by_cases hname : name = compId
    · simp [setState, hname]
    · have hold : manager.connectionToCompId other = some name := by
        by_cases hother : other = sessionId
        · simp [setState, hother, Ne.symm hname] at hmap
        · simpa [setState, hother] using hmap
      simpa [setState, hname] using h other name hold
  · intro other
    rw [nextNumber_setState]
    by_cases hother : other = sessionId
    · simp [hother, stateOf]
    · rw [if_neg hother]
      simp only [Function.update_of_ne hother]
      split_ifs with hmap
      · obtain ⟨state, hstate⟩ := Option.isSome_iff_exists.mp (h other compId hmap)
        rw [nextNumber_of_mapped hmap hstate, hstate, Option.getD_some]
      · simp [nextNumber, getSessionState, Function.update_of_ne hother]

theorem lt_add_one {n : UInt32} (h : n ≠ 4294967295) : n < n + 1 :=
  UInt32.lt_iff_toNat_lt.mpr (lt_next rfl fun _ => h)

/-- A mapped connection gets the next number of its `CompID`, which is counted. -/
theorem useNextOutboundSequence_grows (h : manager.Mapped) {n : UInt32}
    (hn : manager.nextNumber sessionId = some n) (hmax : n ≠ 4294967295) :
    (manager.useNextOutboundSequence sessionId).1 = n ∧
      manager.NumbersGrow (manager.useNextOutboundSequence sessionId).2 ∧
      (manager.useNextOutboundSequence sessionId).2.nextNumber sessionId = some (n + 1) := by
  obtain ⟨state, hstate, rfl⟩ := Option.map_eq_some_iff.mp hn
  obtain ⟨compId, hmap, hstate⟩ := Option.bind_eq_some_iff.mp hstate
  have heq : manager.useNextOutboundSequence sessionId = (state.outSeqNum,
      (manager.setState compId { state with outSeqNum := state.outSeqNum + 1 }).persist
        state.senderCompId { state with outSeqNum := state.outSeqNum + 1 }) := by
    simp only [useNextOutboundSequence, hmap, hstate]
  rw [heq]
  refine ⟨rfl, ?_, ?_⟩
  · exact (numbersGrow_setState h _ hstate (UInt32.le_of_lt (lt_add_one hmax))).persist _
  · exact (nextNumber_setState _ sessionId).trans (if_pos hmap)

theorem useNextOutboundSequence_unmapped (hn : manager.nextNumber sessionId = none) :
    manager.useNextOutboundSequence sessionId = (1, manager) := by
  unfold useNextOutboundSequence
  split
  · rfl
  · next compId hmap =>
      split
      · rfl
      · next state hstate =>
          rw [nextNumber_of_mapped hmap hstate] at hn
          simp at hn

end FixSessionManager

/-- A message that a thread has numbered and not yet written. -/
structure NumberedMessage where
  thread : ℕ
  connection : ℕ
  msgSeqNum : UInt32
  deriving DecidableEq

def NumberedMessage.byThread (thread : ℕ) (message : NumberedMessage) : Bool :=
  message.thread = thread

def NumberedMessage.onConnection (connection : ℕ) (message : NumberedMessage) : Bool :=
  message.connection = connection

structure WireSystem where
  manager : FixSessionManager
  /-- In the order in which the messages got their numbers. -/
  outgoing : List NumberedMessage
  isOpen : ℕ → Bool
  /-- The numbers of the messages of a connection, in the order they were written. -/
  written : ℕ → List UInt32

/-- What the threads do between two messages of the lock or the socket. -/
inductive WireAction where
  | loadConfig (validClients : List String)
  | authenticate (connection : ℕ) (senderCompId : String)
  | validateSequence (connection : ℕ) (incomingSeqNum : UInt32)
  | useNextOutboundSequence (thread connection : ℕ)
  /-- The answer to a logon that fails has the number 1. -/
  | useOne (thread connection : ℕ)
  | doWrite (thread : ℕ)
  | handleLogout (connection : ℕ)
  | cleanupConnection (connection : ℕ)
  | close (connection : ℕ)

namespace WireSystem

def start (seqRepo : Option SequenceRepository) : WireSystem :=
  ⟨.empty seqRepo, [], fun _ => true, fun _ => []⟩

/-- What is written to a closed socket is lost. -/
def write (s : WireSystem) (message : NumberedMessage) : ℕ → List UInt32 :=
  if s.isOpen message.connection then
    Function.update s.written message.connection
      (s.written message.connection ++ [message.msgSeqNum])
  else s.written

def step (s : WireSystem) : WireAction → WireSystem
  | .loadConfig validClients => { s with manager := s.manager.loadConfig validClients }
  | .authenticate connection senderCompId =>
      { s with manager := (s.manager.authenticate (connectionNumber connection) senderCompId).2 }
  | .validateSequence connection incomingSeqNum =>
      { s with
        manager := (s.manager.validateSequence (connectionNumber connection) incomingSeqNum).2 }
  | .useNextOutboundSequence thread connection =>
      let (msgSeqNum, manager) :=
        s.manager.useNextOutboundSequence (connectionNumber connection)
      { s with manager := manager, outgoing := s.outgoing ++ [⟨thread, connection, msgSeqNum⟩] }
  | .useOne thread connection =>
      { s with outgoing := s.outgoing ++ [⟨thread, connection, 1⟩] }
  | .doWrite thread =>
      match s.outgoing.find? (NumberedMessage.byThread thread) with
      | none => s
      | some message =>
          { s with
            outgoing := s.outgoing.eraseP (NumberedMessage.byThread thread)
            written := s.write message }
  | .handleLogout connection =>
      { s with manager := s.manager.handleLogout (connectionNumber connection) }
  | .cleanupConnection connection =>
      { s with manager := s.manager.cleanupConnection (connectionNumber connection) }
  | .close connection => { s with isOpen := Function.update s.isOpen connection false }

/-- The messages of a connection that have a number and are not yet written. -/
def waiting (s : WireSystem) (connection : ℕ) : List NumberedMessage :=
  s.outgoing.filter (NumberedMessage.onConnection connection)

/-- The numbers of a connection, in the order they were given out. -/
def numbers (s : WireSystem) (connection : ℕ) : List UInt32 :=
  s.written connection ++ (s.waiting connection).map NumberedMessage.msgSeqNum

/-- The numbers on the wire are strictly increasing. -/
def NumbersIncrease (s : WireSystem) : Prop :=
  ∀ connection, (s.written connection).Pairwise (· < ·)

/-- A connection that has sent something is not given a lower number: it logs on as
a `CompID` that is further on, it takes the number 1 for its first message only, and
the last number of a `CompID` is not taken.  Messages of a connection are written in
the order in which they got their numbers. -/
def InOrder (s : WireSystem) : WireAction → Prop
  | .authenticate connection senderCompId => s.manager.validClients senderCompId = true →
      ∀ other, connectionNumber other = connectionNumber connection → s.isOpen other = true →
        ∀ n ∈ s.numbers other, n < (s.manager.stateOf senderCompId).outSeqNum
  | .useNextOutboundSequence _ connection =>
      match s.manager.nextNumber (connectionNumber connection) with
      | none => s.isOpen connection = true → s.numbers connection = []
      | some n => n ≠ 4294967295
  | .useOne _ connection => s.isOpen connection = true → s.numbers connection = [] ∧
      ∀ next, s.manager.nextNumber (connectionNumber connection) = some next → 1 < next
  | .doWrite thread => ∀ message,
      s.outgoing.find? (NumberedMessage.byThread thread) = some message →
        s.isOpen message.connection = true → (s.waiting message.connection).head? = some message
  | _ => True

/-- The invariant: the numbers of an open connection increase, and are below its next. -/
structure Increasing (s : WireSystem) : Prop where
  mapped : s.manager.Mapped
  written : s.NumbersIncrease
  sorted : ∀ connection, s.isOpen connection = true → (s.numbers connection).Pairwise (· < ·)
  below : ∀ connection next, s.isOpen connection = true →
    s.manager.nextNumber (connectionNumber connection) = some next →
      ∀ n ∈ s.numbers connection, n < next

variable {s s' : WireSystem} {connection : ℕ}

theorem increasing_start (seqRepo : Option SequenceRepository) : (start seqRepo).Increasing where
  mapped := by simp [start, FixSessionManager.Mapped, FixSessionManager.empty]
  written := by simp [start, NumbersIncrease]
  sorted := by simp [start, numbers, waiting]
  below := by simp [start, numbers, waiting]

/-- A step of the manager that gives out no number. -/
theorem Increasing.grow (h : s.Increasing) {manager : FixSessionManager}
    (hgrow : s.manager.NumbersGrow manager) : Increasing { s with manager := manager } where
  mapped := hgrow.mapped
  written := h.written
  sorted := h.sorted
  below := by
    intro connection next hopen hnext n hn
    obtain ⟨old, hold, hle⟩ := hgrow.grows _ next hnext
    exact UInt32.lt_of_lt_of_le (h.below connection old hopen hold n hn) hle

theorem Increasing.authenticate (h : s.Increasing) {connection : ℕ} {senderCompId : String}
    (horder : s.InOrder (.authenticate connection senderCompId)) :
    (s.step (.authenticate connection senderCompId)).Increasing := by
  by_cases hvalid : s.manager.validClients senderCompId = true
  · obtain ⟨hmapped, hnext⟩ := FixSessionManager.authenticate_nextNumber h.mapped
      (connectionNumber connection) hvalid
    refine ⟨hmapped, h.written, h.sorted, fun other next hopen hother n hn => ?_⟩
    rw [step, hnext] at hother
    split_ifs at hother with hnumber
    · rw [← Option.some.inj hother]
      exact horder hvalid other hnumber hopen n hn
    · exact h.below other next hopen hother n hn
  · have hsame := FixSessionManager.authenticate_of_not_valid (connectionNumber connection) hvalid
    rw [step, hsame]
    exact h

/-! ## Numbering -/

theorem numbers_concat (s : WireSystem) (manager : FixSessionManager) (message : NumberedMessage)
    (connection : ℕ) :
    numbers { s with manager := manager, outgoing := s.outgoing ++ [message] } connection =
      if connection = message.connection then s.numbers connection ++ [message.msgSeqNum]
      else s.numbers connection := by
  by_cases h : connection = message.connection
  · simp [numbers, waiting, h, NumberedMessage.onConnection]
  · simp [numbers, waiting, h, NumberedMessage.onConnection, Ne.symm h]

/-- A message gets a number above those of its connection and below the next one. -/
theorem Increasing.number (h : s.Increasing) {manager : FixSessionManager}
    (hgrow : s.manager.NumbersGrow manager) {message : NumberedMessage}
    (habove : s.isOpen message.connection = true →
      ∀ n ∈ s.numbers message.connection, n < message.msgSeqNum)
    (hbelow : s.isOpen message.connection = true → ∀ next,
      manager.nextNumber (connectionNumber message.connection) = some next →
        message.msgSeqNum < next) :
    Increasing { s with manager := manager, outgoing := s.outgoing ++ [message] } where
  mapped := hgrow.mapped
  written := h.written
  sorted := by
    intro connection hopen
    rw [numbers_concat]
    split_ifs with heq
    · subst heq
      rw [List.pairwise_append]
      refine ⟨h.sorted _ hopen, List.pairwise_singleton _ _, fun n hn m hm => ?_⟩
      obtain rfl := List.mem_singleton.mp hm
      exact habove hopen n hn
    · exact h.sorted connection hopen
  below := by
    intro connection next hopen hnext n hn
    have hold : n ∈ s.numbers connection → n < next :=
      (h.grow hgrow).below connection next hopen hnext n
    rw [numbers_concat] at hn
    split_ifs at hn with heq
    · subst heq
      rcases List.mem_append.mp hn with hn | hn
      · exact hold hn
      · obtain rfl := List.mem_singleton.mp hn
        exact hbelow hopen next hnext
    · exact hold hn

theorem Increasing.useNextOutboundSequence (h : s.Increasing) {thread connection : ℕ}
    (horder : s.InOrder (.useNextOutboundSequence thread connection)) :
    (s.step (.useNextOutboundSequence thread connection)).Increasing := by
  rw [step]
  dsimp only [InOrder] at horder
  cases hnext : s.manager.nextNumber (connectionNumber connection) with
  | none =>
      rw [hnext] at horder
      rw [FixSessionManager.useNextOutboundSequence_unmapped hnext]
      refine h.number (.refl h.mapped) (fun hopen n hn => ?_) fun _ next hsome => ?_
      · rw [horder hopen] at hn
        exact absurd hn List.not_mem_nil
      · exact absurd (hnext.symm.trans hsome) nofun
  | some n =>
      rw [hnext] at horder
      obtain ⟨hnumber, hgrow, hnext'⟩ :=
        FixSessionManager.useNextOutboundSequence_grows h.mapped hnext horder
      refine h.number hgrow (fun hopen m hm => ?_) fun _ next hsome => ?_
      · exact hnumber.symm ▸ h.below connection n hopen hnext m hm
      · rw [← Option.some.inj (hnext'.symm.trans hsome)]
        exact hnumber.symm ▸ FixSessionManager.lt_add_one horder

theorem Increasing.useOne (h : s.Increasing) {thread connection : ℕ}
    (horder : s.InOrder (.useOne thread connection)) :
    (s.step (.useOne thread connection)).Increasing := by
  refine h.number (.refl h.mapped) (fun hopen n hn => ?_) fun hopen => (horder hopen).2
  rw [(horder hopen).1] at hn
  exact absurd hn List.not_mem_nil

/-! ## Writing -/

/-- What a thread writes leaves the messages of the other connections alone, and comes
first among those of its own connection if the writes keep their order. -/
theorem waiting_eraseP {thread : ℕ} {message : NumberedMessage}
    (hfind : s.outgoing.find? (NumberedMessage.byThread thread) = some message)
    (connection : ℕ) :
    (s.outgoing.eraseP (NumberedMessage.byThread thread)).filter
        (NumberedMessage.onConnection connection) =
      if connection = message.connection then
        (s.waiting connection).eraseP (NumberedMessage.byThread thread)
      else s.waiting connection := by
  obtain ⟨hthread, before, after, heq, hbefore⟩ := List.find?_eq_some_iff_append.mp hfind
  have hnot : ∀ other ∈ before, ¬other.byThread thread = true := by
    intro other hother
    simpa using hbefore other hother
  rw [heq, List.eraseP_append_right _ hnot, List.eraseP_cons_of_pos hthread, waiting, heq]
  by_cases hconnection : connection = message.connection
  · subst hconnection
    have hmessage : message.onConnection message.connection = true := decide_eq_true rfl
    have hnot' : ∀ other ∈ before.filter (NumberedMessage.onConnection message.connection),
        ¬other.byThread thread = true :=
      fun other hother => hnot other (List.mem_of_mem_filter hother)
    rw [if_pos rfl, List.filter_append, List.filter_append, List.filter_cons_of_pos hmessage,
      List.eraseP_append_right _ hnot', List.eraseP_cons_of_pos hthread]
  · have hmessage : ¬message.onConnection connection = true := by
      simpa [NumberedMessage.onConnection] using Ne.symm hconnection
    rw [if_neg hconnection, List.filter_append, List.filter_append,
      List.filter_cons_of_neg hmessage]

theorem Increasing.doWrite (h : s.Increasing) {thread : ℕ} (horder : s.InOrder (.doWrite thread)) :
    (s.step (.doWrite thread)).Increasing := by
  rw [step]
  cases hfind : s.outgoing.find? (NumberedMessage.byThread thread) with
  | none => exact h
  | some message =>
      dsimp only
      -- the numbers of an open connection only move from the queue to the wire
      have hnumbers : ∀ connection, s.isOpen connection = true → numbers { s with
          outgoing := s.outgoing.eraseP (NumberedMessage.byThread thread),
          written := s.write message } connection = s.numbers connection := by
        intro connection hopen
        unfold numbers waiting
        dsimp only
        rw [waiting_eraseP hfind, write]
        by_cases hconnection : connection = message.connection
        · subst hconnection
          obtain ⟨rest, hrest⟩ := List.head?_eq_some_iff.mp (horder message hfind hopen)
          obtain ⟨hthread, _⟩ := List.find?_eq_some_iff_append.mp hfind
          rw [if_pos rfl, if_pos hopen, Function.update_self, hrest,
            List.eraseP_cons_of_pos hthread, ← waiting, hrest]
          simp
        · rw [if_neg hconnection, ← waiting]
          split_ifs
          · rw [Function.update_of_ne hconnection]
          · rfl
      refine ⟨h.mapped, fun connection => ?_, fun connection hopen => ?_,
        fun connection next hopen hnext => ?_⟩
      · dsimp only
        by_cases hopen : s.isOpen connection = true
        · have hsorted := h.sorted connection hopen
          rw [← hnumbers connection hopen] at hsorted
          exact (List.pairwise_append.mp hsorted).1
        · have hsame : s.write message connection = s.written connection := by
            rw [write]
            split_ifs with hmessage
            · have hne : connection ≠ message.connection := by
                rintro rfl
                exact hopen hmessage
              rw [Function.update_of_ne hne]
            · rfl
          rw [hsame]
          exact h.written connection
      · rw [hnumbers connection hopen]
        exact h.sorted connection hopen
      · rw [hnumbers connection hopen]
        exact h.below connection next hopen hnext

/-! ## Runs -/

theorem Increasing.step (h : s.Increasing) {action : WireAction} (horder : s.InOrder action) :
    (s.step action).Increasing := by
  cases action with
  | loadConfig validClients =>
      exact h.grow ⟨h.mapped, (FixSessionManager.NumbersGrow.refl h.mapped).grows⟩
  | authenticate connection senderCompId => exact h.authenticate horder
  | validateSequence connection n =>
      exact h.grow (FixSessionManager.numbersGrow_validateSequence h.mapped n)
  | useNextOutboundSequence thread connection => exact h.useNextOutboundSequence horder
  | useOne thread connection => exact h.useOne horder
  | doWrite thread => exact h.doWrite horder
  | handleLogout connection => exact h.grow (FixSessionManager.numbersGrow_handleLogout h.mapped)
  | cleanupConnection connection =>
      exact h.grow (FixSessionManager.numbersGrow_cleanupConnection h.mapped)
  | close connection =>
      have hopen : ∀ other, Function.update s.isOpen connection false other = true →
          s.isOpen other = true := by
        intro other hother
        by_cases heq : other = connection
        · simp [heq] at hother
        · rwa [Function.update_of_ne heq] at hother
      exact ⟨h.mapped, h.written, fun other hother => h.sorted other (hopen other hother),
        fun other next hother => h.below other next (hopen other hother)⟩

/-- Whatever the threads do in between, the numbers on every wire increase as long as
every step keeps the order. -/
theorem numbers_increase {seqRepo : Option SequenceRepository} {actions : List WireAction}
    (h : TotalRun.Meets step InOrder (start seqRepo) actions) :
    TotalRun.Always step NumbersIncrease (start seqRepo) actions :=
  TotalRun.always_of_meets Increasing (fun _ hs => hs.written) (fun _ _ hs horder => hs.step horder)
    (increasing_start seqRepo) h

/-- C1 logs on over the first connection. -/
def Sample.logon : List WireAction :=
  [.loadConfig ["C1"], .authenticate 0 "C1", .useNextOutboundSequence 0 0, .doWrite 0]

theorem numbers_increase_sample :
    TotalRun.Always step NumbersIncrease (start none) Sample.logon := by
  apply numbers_increase
  refine ⟨trivial, fun _ other _ _ n hn => ?_, ?_, fun message hmessage _ => ?_, trivial⟩
  · exact absurd hn List.not_mem_nil
  · have hne : (1 : UInt32) ≠ 4294967295 := by decide
    exact hne
  · have hmessage' : some (NumberedMessage.mk 0 0 1) = some message := hmessage
    obtain rfl := Option.some.inj hmessage'
    decide +kernel

/-- A report of a worker, thread 1, is numbered before a heartbeat and written after it. -/
def Sample.overtaken : List WireAction :=
  Sample.logon ++ [.useNextOutboundSequence 1 0, .useNextOutboundSequence 0 0, .doWrite 0,
    .doWrite 1]

theorem report_overtaken :
    ¬TotalRun.Always step NumbersIncrease (start none) Sample.overtaken := by
  intro h
  have hwritten : (Sample.overtaken.foldl step (start none)).written 0 = [1, 3, 2] := by
    decide +kernel
  have hsorted := h.last 0
  rw [hwritten] at hsorted
  exact absurd hsorted (by decide)

/-! ## What the sessions do -/

/-- Rejects, heartbeats, reports and market data. -/
def sendActions (thread connection : ℕ) : List WireAction :=
  [.useNextOutboundSequence thread connection, .doWrite thread]

/-- A Logon of this `CompID`, which is valid or not. -/
def logonActions (thread connection : ℕ) (valid : Bool) (compId : String) (msgSeqNum : UInt32) :
    List WireAction :=
  .authenticate connection compId ::
    if valid then .validateSequence connection msgSeqNum :: sendActions thread connection
    else [.useOne thread connection, .doWrite thread, .close connection]

def logoutActions (thread connection : ℕ) : List WireAction :=
  [.useNextOutboundSequence thread connection, .handleLogout connection, .doWrite thread,
    .cleanupConnection connection, .close connection]

section Handlers

variable {thread : ℕ} {ctx : HandlerContext} {fixMessage : Message}

/-- The thread has written what it has numbered. -/
def Idle (s : WireSystem) (thread : ℕ) : Prop :=
  ∀ message ∈ s.outgoing, message.byThread thread = false

theorem step_doWrite (h : s.Idle thread) (manager : FixSessionManager) (connection : ℕ)
    (n : UInt32) :
    step { s with
          manager := manager
          outgoing := s.outgoing ++ [NumberedMessage.mk thread connection n] }
        (.doWrite thread) =
      { s with manager := manager, written := s.write ⟨thread, connection, n⟩ } := by
  have hmine : (NumberedMessage.mk thread connection n).byThread thread = true :=
    decide_eq_true rfl
  have hothers : ∀ message ∈ s.outgoing, ¬message.byThread thread = true := by
    intro message hmessage
    simp [h message hmessage]
  have hfind : (s.outgoing ++ [NumberedMessage.mk thread connection n]).find?
      (NumberedMessage.byThread thread) = some ⟨thread, connection, n⟩ := by
    rw [List.find?_append, List.find?_eq_none.mpr hothers, Option.none_or,
      List.find?_cons_of_pos hmine]
  rw [step, hfind, List.eraseP_append_right _ hothers, List.eraseP_cons_of_pos hmine,
    List.append_nil]
  rfl

/-- Undisturbed, a message is written with the next number of its connection. -/
theorem foldl_sendActions (h : s.Idle thread) (build : UInt32 → Timestamp → Message) :
    ((sendActions thread connection).foldl step s) = { s with
      manager :=
        (FixSession.buildNext ctx s.manager (connectionNumber connection) build).1
      written := s.write ⟨thread, connection,
        (s.manager.useNextOutboundSequence (connectionNumber connection)).1⟩ } :=
  step_doWrite h _ connection _

/-- Undisturbed, the steps of a Logon leave the manager as its handler does. -/
theorem foldl_logonActions (h : s.Idle thread) (msgSeqNum : UInt32) :
    ((logonActions thread connection
        (s.manager.validClients (String.ofList (FixSession.senderCompId fixMessage)))
        (String.ofList (FixSession.senderCompId fixMessage)) msgSeqNum).foldl step s).manager =
      (FixSession.handleLogon ctx s.manager (connectionNumber connection) fixMessage
        msgSeqNum).1 := by
  obtain ⟨logout, logonAck, heq⟩ := FixSession.handleLogon_eq ctx s.manager
    (connectionNumber connection) fixMessage msgSeqNum
  rw [heq, logonActions]
  split_ifs with hvalid
  · exact congrArg WireSystem.manager (step_doWrite h _ connection _)
  · have hsame : s.step (.authenticate connection
        (String.ofList (FixSession.senderCompId fixMessage))) = s := by
      rw [step, FixSessionManager.authenticate_of_not_valid _ hvalid]
    rw [List.foldl_cons, hsame]
    have hwrite := congrArg WireSystem.manager (step_doWrite h s.manager connection 1)
    exact hwrite

/-- Undisturbed, the steps of a Logout leave the manager as its handler does. -/
theorem foldl_logoutActions (h : s.Idle thread) :
    ((logoutActions thread connection).foldl step s).manager =
      (FixSession.handleLogout ctx s.manager (connectionNumber connection) fixMessage).1 := by
  have hwrite := step_doWrite h ((s.manager.useNextOutboundSequence
    (connectionNumber connection)).2.handleLogout (connectionNumber connection)) connection
      (s.manager.useNextOutboundSequence (connectionNumber connection)).1
  exact congrArg (fun t : WireSystem =>
    t.manager.cleanupConnection (connectionNumber connection)) hwrite

end Handlers

end WireSystem

end BetaTrader
