import BetaTrader.Client.SessionCalls

/-!
# Two threads and one store

The threads of the client share its sequence numbers.  Each call of the store is one
step, but a send reads both numbers and writes both back, and so does the receipt of a
message: what the other thread has written in between is lost.  As long as every write
finds the numbers that its call has read, none is.
-/

namespace BetaTrader

/-- A message of the server: no `SequenceReset`, and not the last number there is. -/
structure InboundFrame where
  seqNum : UInt32
  msgType : Char
  /-- Field 7 of a `ResendRequest`. -/
  beginSeqNo : UInt32
  bounded : seqNum.toNat + 1 < 2 ^ 32
  noReset : msgType ≠ '4'
  deriving DecidableEq

/-- Where a thread is in a call that uses the store. -/
inductive StoreCall where
  | idle
  /-- The state has been checked, and the call goes to `getNextSenderSeqNum`. -/
  | send (logout : Bool)
  | sendOut (logout : Bool) (outSeq : UInt32)
  /-- Both numbers have been read, and the call goes to `setSeqNums`. -/
  | sendBoth (logout : Bool) (outSeq inSeq : UInt32)
  /-- `handleProtocolMessage` goes to `getNextTargetSeqNum`. -/
  | receive (frame : InboundFrame)
  | receiveIn (frame : InboundFrame) (expectedSeq : UInt32)
  | receiveBoth (frame : InboundFrame) (expectedSeq outSeq : UInt32)
  | resend (frame : InboundFrame)
  deriving DecidableEq

/-- What the threads share. -/
structure SharedSession where
  seqStore : SeqNumStore
  state : FixClientState
  /-- The numbers of the messages sent, but for gap fills. -/
  sent : List UInt32
  gapFills : List UInt32
  /-- The numbers of the messages taken from the server. -/
  accepted : List UInt32

structure ClientThreads where
  session : SharedSession
  /-- The thread that calls `sendNewOrder`, `sendMessage` and `sendLogout`. -/
  app : StoreCall
  /-- The thread of the socket and of the heartbeat timer. -/
  net : StoreCall

inductive ClientStep where
  /-- The application calls `sendMessage`, or `sendLogout`. -/
  | call (logout : Bool)
  /-- The application's thread makes its next call of the store. -/
  | app
  | arrive (frame : InboundFrame)
  | timer
  /-- The network thread makes its next call of the store. -/
  | net

namespace SharedSession

/-- Does the state let the message out? -/
def Sends (session : SharedSession) (logout : Bool) : Prop :=
  session.state = .active ∨ (logout = true ∧ session.state = .logonSent)

instance (session : SharedSession) (logout : Bool) : Decidable (session.Sends logout) :=
  inferInstanceAs (Decidable (_ ∨ _))

/-- The `switch`, as far as it uses the store. -/
def dispatch (frame : InboundFrame) : StoreCall :=
  if frame.msgType = '1' then .send false
  else if frame.msgType = '2' then .resend frame
  else .idle

/-- The next call of the store, with what follows it up to the next one. -/
def advance (session : SharedSession) : StoreCall → SharedSession × StoreCall
  | .idle => (session, .idle)
  | .send logout => (session, .sendOut logout session.seqStore.outSeqNum)
  | .sendOut logout outSeq => (session, .sendBoth logout outSeq session.seqStore.inSeqNum)
  | .sendBoth logout outSeq inSeq =>
      ({ session with
          seqStore := ⟨inSeq, outSeq + 1⟩
          state := if logout then .loggingOut else session.state
          sent := session.sent ++ [outSeq] }, .idle)
  | .receive frame =>
      if frame.msgType = '5' then ({ session with state := .disconnected }, .idle)
      else (session, .receiveIn frame session.seqStore.inSeqNum)
  | .receiveIn frame expectedSeq =>
      if frame.seqNum < expectedSeq then ({ session with state := .disconnected }, .idle)
      else (session, .receiveBoth frame expectedSeq session.seqStore.outSeqNum)
  | .receiveBoth frame _ outSeq =>
      -- the expected number is that of the message, or it is synced up to it
      ({ session with
          seqStore := ⟨frame.seqNum + 1, outSeq⟩
          state := if frame.msgType = 'A' then .active else session.state
          accepted := session.accepted ++ [frame.seqNum] }, dispatch frame)
  | .resend frame => ({ session with gapFills := session.gapFills ++ [frame.beginSeqNo] }, .idle)

/-- If the call writes the store now, it finds the numbers that it has read. -/
def Finds (session : SharedSession) : StoreCall → Prop
  | .sendBoth _ outSeq inSeq =>
      session.seqStore = ⟨inSeq, outSeq⟩ ∧ session.sent.length < 2 ^ 32
  | .receiveBoth _ expectedSeq outSeq => session.seqStore = ⟨expectedSeq, outSeq⟩
  | _ => True

instance (session : SharedSession) : ∀ call, Decidable (session.Finds call)
  | .sendBoth _ _ _ => inferInstanceAs (Decidable (_ ∧ _))
  | .receiveBoth _ _ _ => inferInstanceAs (Decidable (_ = _))
  | .idle | .send _ | .sendOut _ _ | .receive _ | .receiveIn _ _ | .resend _ => .isTrue trivial

/-- No two messages have been sent under one number, and the store expects more than
the last number taken from the server. -/
structure NoUpdateLost (session : SharedSession) : Prop where
  distinct : session.sent.Nodup
  expects : ∀ n ∈ session.accepted.getLast?, n.toNat + 1 ≤ session.seqStore.inSeqNum.toNat

/-- The messages have been numbered from `first` on. -/
structure Counted (first : UInt32) (session : SharedSession) : Prop where
  sent : session.sent =
    (List.range session.sent.length).map fun i => first + UInt32.ofNat i
  next : session.seqStore.outSeqNum = first + UInt32.ofNat session.sent.length
  few : session.sent.length ≤ 2 ^ 32
  expects : ∀ n ∈ session.accepted.getLast?, n.toNat + 1 ≤ session.seqStore.inSeqNum.toNat

variable {first : UInt32} {session : SharedSession}

theorem Counted.noUpdateLost (h : Counted first session) : session.NoUpdateLost where
  distinct := by
    rw [h.sent]
    refine List.Nodup.map_on (fun i hi j hj heq => ?_) List.nodup_range
    have hfew := h.few
    have hi := List.mem_range.mp hi
    have hj := List.mem_range.mp hj
    have hij : UInt32.ofNat i = UInt32.ofNat j := (UInt32.add_right_inj first).mp heq
    have hnat := congrArg UInt32.toNat hij
    rwa [UInt32.toNat_ofNat_of_lt' (by rw [UInt32.size]; omega),
      UInt32.toNat_ofNat_of_lt' (by rw [UInt32.size]; omega)] at hnat
  expects := h.expects

/-- A call that finds what it has read keeps the count. -/
theorem Counted.advance (h : Counted first session) {call : StoreCall}
    (hfinds : session.Finds call) : Counted first (session.advance call).1 := by
  cases call with
  | idle => exact h
  | send logout => exact h
  | sendOut logout outSeq => exact h
  | sendBoth logout outSeq inSeq =>
      obtain ⟨hstore, hfew⟩ := hfinds
      have hnext : outSeq = first + UInt32.ofNat session.sent.length := by
        rw [← h.next, hstore]
      have hsent : (session.advance (.sendBoth logout outSeq inSeq)).1.sent =
          session.sent ++ [outSeq] := rfl
      have hlength : (session.advance (.sendBoth logout outSeq inSeq)).1.sent.length =
          session.sent.length + 1 := List.length_append
      refine ⟨?_, ?_, ?_, ?_⟩
      · rw [hlength, hsent, List.range_succ, List.map_append, ← h.sent, List.map_singleton, hnext]
      · have hout : (session.advance (.sendBoth logout outSeq inSeq)).1.seqStore.outSeqNum =
            outSeq + 1 := rfl
        rw [hout, hlength, UInt32.ofNat_add, ← UInt32.add_assoc, ← hnext]
        rfl
      · rw [hlength]
        exact hfew
      · have hexpects := h.expects
        rwa [hstore] at hexpects
  | receive frame =>
      dsimp only [SharedSession.advance]
      split_ifs
      · exact ⟨h.sent, h.next, h.few, h.expects⟩
      · exact h
  | receiveIn frame expectedSeq =>
      dsimp only [SharedSession.advance]
      split_ifs
      · exact ⟨h.sent, h.next, h.few, h.expects⟩
      · exact h
  | receiveBoth frame expectedSeq outSeq =>
      have hnext := h.next
      rw [show session.seqStore = ⟨expectedSeq, outSeq⟩ from hfinds] at hnext
      refine ⟨h.sent, hnext, h.few, fun n hn => ?_⟩
      have hn : n = frame.seqNum := by
        have hlast : (session.accepted ++ [frame.seqNum]).getLast? = some n := hn
        rw [List.getLast?_concat] at hlast
        exact (Option.some.inj hlast).symm
      have hsucc : (frame.seqNum + 1).toNat = frame.seqNum.toNat + 1 := by
        rw [UInt32.toNat_add]
        exact Nat.mod_eq_of_lt frame.bounded
      rw [hn, ← hsucc]
      exact le_rfl
  | resend frame => exact ⟨h.sent, h.next, h.few, h.expects⟩

end SharedSession

namespace ClientThreads

/-- A thread that is in a call finishes it before the next one. -/
def step (s : ClientThreads) : ClientStep → ClientThreads
  | .call logout =>
      if s.app = .idle ∧ s.session.Sends logout then { s with app := .send logout } else s
  | .app => { s with
      session := (s.session.advance s.app).1
      app := (s.session.advance s.app).2 }
  | .arrive frame => if s.net = .idle then { s with net := .receive frame } else s
  | .timer =>
      if s.net = .idle ∧ s.session.state = .active then { s with net := .send false } else s
  | .net => { s with
      session := (s.session.advance s.net).1
      net := (s.session.advance s.net).2 }

/-- Both threads are idle, and nothing has been sent. -/
def start (seqStore : SeqNumStore) (state : FixClientState) : ClientThreads where
  session := { seqStore := seqStore, state := state, sent := [], gapFills := [], accepted := [] }
  app := .idle
  net := .idle

/-- A thread that writes the store finds the numbers that its call has read. -/
def Current (s : ClientThreads) : ClientStep → Prop
  | .app => s.session.Finds s.app
  | .net => s.session.Finds s.net
  | _ => True

instance (s : ClientThreads) : ∀ event, Decidable (s.Current event)
  | .app => inferInstanceAs (Decidable (s.session.Finds s.app))
  | .net => inferInstanceAs (Decidable (s.session.Finds s.net))
  | .call _ | .arrive _ | .timer => .isTrue trivial

theorem counted_step {first : UInt32} {s : ClientThreads} {event : ClientStep}
    (h : s.session.Counted first) (hcurrent : s.Current event) :
    (s.step event).session.Counted first := by
  cases event with
  | call logout =>
      dsimp only [step]
      split_ifs <;> exact h
  | app => exact h.advance hcurrent
  | arrive frame =>
      dsimp only [step]
      split_ifs <;> exact h
  | timer =>
      dsimp only [step]
      split_ifs <;> exact h
  | net => exact h.advance hcurrent

/-- No update is lost in a run in which every write of the store finds what its call
has read. -/
theorem noUpdateLost_of_current (seqStore : SeqNumStore) (state : FixClientState)
    {steps : List ClientStep} (h : TotalRun.Meets step Current (start seqStore state) steps) :
    TotalRun.Always step (fun s => s.session.NoUpdateLost) (start seqStore state) steps := by
  refine TotalRun.always_of_meets (fun s => s.session.Counted seqStore.outSeqNum)
    (fun _ hs => hs.noUpdateLost) (fun _ _ hs hcurrent => counted_step hs hcurrent) ?_ h
  refine ⟨rfl, ?_, Nat.zero_le _, fun n hn => nomatch hn⟩
  exact (UInt32.add_zero _).symm

namespace Sample

/-- The server's message with the expected number 2, an execution report. -/
def report : InboundFrame := ⟨2, '8', 0, by decide, by decide⟩

/-- A message is sent, and then the report received. -/
def orderly : List ClientStep :=
  [.call false, .app, .app, .app, .arrive report, .net, .net, .net]

/-- The report is received while a message is being sent. -/
def receivedInSend : List ClientStep :=
  [.call false, .app, .app, .arrive report, .net, .net, .net, .app]

/-- A message is sent while the report is being received, and one more after it. -/
def sentInReceive : List ClientStep :=
  [.arrive report, .net, .net, .call false, .app, .app, .app, .net,
    .call false, .app, .app, .app]

end Sample

theorem noUpdateLost_of_current_sample :
    TotalRun.Always step (fun s => s.session.NoUpdateLost) (start ⟨2, 2⟩ .active)
      Sample.orderly :=
  noUpdateLost_of_current ⟨2, 2⟩ .active (by decide +kernel)

/-- The send puts the expected number back, and the receipt the number of the next
message, so that this is used twice. -/
theorem updates_lost :
    ¬(Sample.receivedInSend.foldl step (start ⟨2, 2⟩ .active)).session.NoUpdateLost ∧
      ¬(Sample.sentInReceive.foldl step (start ⟨2, 2⟩ .active)).session.NoUpdateLost := by
  have hreceived : (Sample.receivedInSend.foldl step (start ⟨2, 2⟩ .active)).session.accepted =
        [2] ∧
      (Sample.receivedInSend.foldl step (start ⟨2, 2⟩ .active)).session.seqStore = ⟨2, 3⟩ := by
    decide +kernel
  have hsent : (Sample.sentInReceive.foldl step (start ⟨2, 2⟩ .active)).session.sent = [2, 2] := by
    decide +kernel
  constructor
  · intro h
    have hexpects := h.expects 2 (by rw [hreceived.1]; rfl)
    rw [hreceived.2] at hexpects
    exact absurd hexpects (by decide)
  · intro h
    have hdistinct := h.distinct
    rw [hsent] at hdistinct
    exact absurd hdistinct (by decide)

end ClientThreads

end BetaTrader
