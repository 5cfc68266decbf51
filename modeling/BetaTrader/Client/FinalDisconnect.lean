import BetaTrader.Client.InboundOrder

/-!
# What follows a disconnect in the same buffer

`disconnect` closes the socket and sets the state, but the loop of the read handler
goes on to the next message, and none of the functions for messages looks at the
state.  Which messages then do nothing is read off the message and the expected
number.
-/

namespace BetaTrader

namespace FixClientSession

open FixUtils InboundHistory

section Frame

variable (ctx : ReadContext) (session : FixClientSession) (msgStr : Message)

/-- Does the handler of the message call `disconnect`? -/
def callsDisconnect : Bool :=
  match header msgStr with
  | some (seqNum, some msgType) =>
      decide (msgType = '5' ∨ msgType ≠ '4' ∧ seqNum < session.seqStore.inSeqNum)
  | _ => false

/-- What an exception leaves of the session: the number has been noted if it is the
function for the type that throws. -/
def atException : FixClientSession :=
  match header msgStr with
  | some (seqNum, some msgType) =>
      if msgType = '4' ∨ msgType = '5' ∨ seqNum < session.seqStore.inSeqNum then session
      else session.setSeqNums (seqNum + 1) session.seqStore.outSeqNum
  | _ => session

/-- The session and the effects when the handler returns or throws. -/
def attempt : FixClientSession × List ReadEffect :=
  (handleProtocolMessage ctx session msgStr).getD (session.atException msgStr, [])

/-- Nothing is done but that a message may be written. -/
structure Untouched (r : FixClientSession × List ReadEffect) : Prop where
  state : r.1.state = session.state
  seqStore : r.1.seqStore = session.seqStore
  effects : ∀ effect ∈ r.2, ∃ message, effect = .doWrite message

/-- The function for the type does nothing that is seen: a heartbeat, a resend request,
or what is not parsed or has no symbol to be shown. -/
def Quiet (msgType : Char) : Prop :=
  msgType = '0' ∨ msgType = '2' ∨ msgType ∉ protocolTypes ∧
    (FixMessageParser.parse ctx.utcOffset msgStr = .monostate ∨
      ∃ refresh, FixMessageParser.parse ctx.utcOffset msgStr = .incremental refresh ∧
        refresh.symbol = none ∧ ctx.unsetSymbol = none)

/-- A closed session takes no notice of the message: it is not a logout, a sequence
reset sets the number that is there, and anything else has too low a number, unless the
successor of its number is the expected one again. -/
structure Ignored : Prop where
  logout : ∀ seqNum, header msgStr ≠ some (seqNum, some '5')
  reset : ∀ seqNum, header msgStr = some (seqNum, some '4') →
    ∀ n, msgStr.numberAt 36 = some n → UInt32.ofNat n = session.seqStore.inSeqNum
  current : ∀ seqNum msgType, header msgStr = some (seqNum, some msgType) →
    msgType ≠ '4' → session.seqStore.inSeqNum ≤ seqNum →
      seqNum + 1 = session.seqStore.inSeqNum ∧ Quiet ctx msgStr msgType

end Frame

/-! ## One message -/

section Message

variable {ctx : ReadContext} {session : FixClientSession} {msgStr : Message} {map : TagMap}
  {seqNum : UInt32} {c : Char}

theorem untouched_self (session : FixClientSession) : session.Untouched (session, []) where
  state := rfl
  seqStore := rfl
  effects := by simp

theorem disconnect_of_disconnected (h : session.state = .disconnected) :
    session.disconnect = (session, []) := if_pos h

theorem state_disconnect (session : FixClientSession) :
    session.disconnect.1.state = .disconnected := by
  unfold disconnect
  split_ifs with hstate
  · exact hstate
  · rfl

/-- A message whose header throws, or that has no type, is passed over. -/
theorem attempt_of_untyped (h : ∀ seqNum msgType, header msgStr ≠ some (seqNum, some msgType)) :
    attempt ctx session msgStr = (session, []) := by
  rw [attempt, atException]
  cases hheader : header msgStr with
  | none =>
      rw [handleProtocolMessage_of_header_none hheader]
      rfl
  | some r =>
      obtain ⟨seqNum, _ | msgType⟩ := r
      · rw [handleProtocolMessage_of_untyped hheader]
        rfl
      · exact absurd hheader (h seqNum msgType)

theorem not_untouched_cons (session after : FixClientSession) {effect : ReadEffect}
    (effects : List ReadEffect) (h : ∀ message, effect ≠ .doWrite message) :
    ¬session.Untouched (after, effect :: effects) := by
  intro huntouched
  obtain ⟨message, heq⟩ := huntouched.effects effect List.mem_cons_self
  exact h message heq

theorem not_untouched_event (session after : FixClientSession) (type : FixClientEventType)
    (text : Message) (effects : List ReadEffect) :
    ¬session.Untouched (after, .event type text :: effects) :=
  not_untouched_cons session after effects (by simp)

theorem not_untouched_stateChange (session after : FixClientSession) (state : FixClientState)
    (effects : List ReadEffect) : ¬session.Untouched (after, .stateChange state :: effects) :=
  not_untouched_cons session after effects (by simp)

theorem untouched_handleResendRequest :
    session.Untouched ((handleResendRequest ctx session map).getD (session, [])) := by
  cases hanswer : handleResendRequest ctx session map with
  | none => exact untouched_self session
  | some r =>
      obtain ⟨_, _, hanswer⟩ := Option.bind_eq_some_iff.mp hanswer
      obtain ⟨_, _, hanswer⟩ := Option.bind_eq_some_iff.mp hanswer
      obtain rfl := Option.some.inj hanswer
      exact ⟨rfl, rfl, by simp⟩

theorem untouched_handleSequenceReset_iff (hmap : splitToMap msgStr soh = some map) :
    session.Untouched ((handleSequenceReset session map).getD (session, [])) ↔
      ∀ n, msgStr.numberAt 36 = some n → UInt32.ofNat n = session.seqStore.inSeqNum := by
  have hnumber := numberAt_of_split hmap 36
  cases hvalue : map (36 : ℕ) with
  | none =>
      rw [hvalue] at hnumber
      rw [handleSequenceReset, hvalue, hnumber]
      simp [untouched_self session]
  | some value =>
      have hfield : fieldNumber map 36 = (msgStr.numberAt 36).map UInt32.ofNat := by
        rw [hnumber, fieldNumber, hvalue, Option.bind_some]
      rw [handleSequenceReset, hvalue, hfield]
      cases msgStr.numberAt 36 with
      | none => simp [untouched_self session]
      | some n =>
          simp only [Option.some.injEq, forall_eq']
          constructor
          · intro h
            exact congrArg SeqNumStore.inSeqNum h.seqStore
          · rintro h
            refine ⟨rfl, ?_, by simp⟩
            show SeqNumStore.mk _ _ = _
            rw [h]

theorem untouched_handleApplicationMessage_iff :
    session.Untouched ((handleApplicationMessage ctx session msgStr).getD (session, [])) ↔
      FixMessageParser.parse ctx.utcOffset msgStr = .monostate ∨
        ∃ refresh, FixMessageParser.parse ctx.utcOffset msgStr = .incremental refresh ∧
          refresh.symbol = none ∧ ctx.unsetSymbol = none := by
  rw [handleApplicationMessage]
  cases FixMessageParser.parse ctx.utcOffset msgStr with
  | monostate => simp [untouched_self session]
  | executionReport report =>
      refine iff_of_false (not_untouched_event _ _ _ _ _) ?_
      simp
  | snapshot snapshot =>
      refine iff_of_false (not_untouched_event _ _ _ _ _) ?_
      simp
  | incremental refresh =>
      cases hsymbol : refresh.symbol with
      | some symbol =>
          simp only [hsymbol, Option.elim_some, Option.bind_eq_bind, Option.bind_some]
          refine iff_of_false (not_untouched_event _ _ _ _ _) ?_
          simp [hsymbol]
      | none =>
          simp only [hsymbol, Option.elim_none]
          cases hunset : ctx.unsetSymbol with
          | some name =>
              refine iff_of_false (not_untouched_event _ _ _ _ _) ?_
              simp
          | none => simp [hsymbol, untouched_self session]

/-- The functions for the types that are subject to the expected number. -/
theorem untouched_dispatch_iff (hreset : c ≠ '4') (hlogout : c ≠ '5') :
    session.Untouched ((dispatch ctx session msgStr map c).getD (session, [])) ↔
      Quiet ctx msgStr c := by
  by_cases hprotocol : c ∈ protocolTypes
  · have hquiet : Quiet ctx msgStr c ↔ c = '0' ∨ c = '2' := by simp [Quiet, hprotocol]
    rw [hquiet]
    simp only [protocolTypes, List.mem_cons, List.not_mem_nil, or_false, hreset, hlogout,
      false_or] at hprotocol
    rcases hprotocol with rfl | rfl | rfl | rfl | rfl | rfl
    · exact iff_of_false (not_untouched_stateChange _ _ _ _) (by decide)
    · exact iff_of_true (untouched_self session) (by decide)
    · refine iff_of_false (fun h => ?_) (by decide)
      have hnext := congrArg SeqNumStore.outSeqNum h.seqStore
      simp [dispatch, handleTestRequest, setSeqNums] at hnext
    · exact iff_of_true untouched_handleResendRequest (by decide)
    · exact iff_of_false (not_untouched_event _ _ _ _ _) (by decide)
    · exact iff_of_false (not_untouched_event _ _ _ _ _) (by decide)
  · have hother : c ≠ '0' ∧ c ≠ '2' := by
      constructor <;> rintro rfl <;> exact hprotocol (by decide)
    rw [dispatch_application hprotocol, untouched_handleApplicationMessage_iff, Quiet]
    simp [hother, hprotocol]

theorem ignored_iff (h : header msgStr = some (seqNum, some c)) :
    Ignored ctx session msgStr ↔ c ≠ '5' ∧
      (c = '4' → ∀ n, msgStr.numberAt 36 = some n →
        UInt32.ofNat n = session.seqStore.inSeqNum) ∧
      (c ≠ '4' → session.seqStore.inSeqNum ≤ seqNum →
        seqNum + 1 = session.seqStore.inSeqNum ∧ Quiet ctx msgStr c) := by
  constructor
  · intro hignored
    refine ⟨?_, ?_, hignored.current seqNum c h⟩
    · rintro rfl
      exact hignored.logout seqNum h
    · rintro rfl
      exact hignored.reset seqNum h
  · rintro ⟨hlogout, hreset, hcurrent⟩
    refine ⟨?_, ?_, ?_⟩
    · intro n hn
      obtain ⟨-, rfl⟩ : seqNum = n ∧ c = '5' := by simpa [h] using hn
      exact hlogout rfl
    · intro n hn
      obtain ⟨-, rfl⟩ : seqNum = n ∧ c = '4' := by simpa [h] using hn
      exact hreset rfl
    · intro n c' hn
      obtain ⟨rfl, rfl⟩ : seqNum = n ∧ c = c' := by simpa [h] using hn
      exact hcurrent

/-- Where the number is noted, it has to be the one before the expected number. -/
theorem untouched_noted_iff (hreset : c ≠ '4') (hlogout : c ≠ '5') :
    session.Untouched ((dispatch ctx
        (session.setSeqNums (seqNum + 1) session.seqStore.outSeqNum) msgStr map c).getD
          (session.setSeqNums (seqNum + 1) session.seqStore.outSeqNum, [])) ↔
      seqNum + 1 = session.seqStore.inSeqNum ∧ Quiet ctx msgStr c := by
  set noted := session.setSeqNums (seqNum + 1) session.seqStore.outSeqNum with hnoted
  have hnumber : ((dispatch ctx noted msgStr map c).getD (noted, [])).1.seqStore.inSeqNum =
      seqNum + 1 := by
    cases hdispatch : dispatch ctx noted msgStr map c with
    | none => rfl
    | some r => exact inSeqNum_dispatch hreset hdispatch
  by_cases hsame : seqNum + 1 = session.seqStore.inSeqNum
  · have heq : noted = session := by
      rw [hnoted, hsame]
      rfl
    rw [heq, untouched_dispatch_iff hreset hlogout, and_iff_right hsame]
  · apply iff_of_false
    · intro huntouched
      exact hsame (hnumber.symm.trans (congrArg SeqNumStore.inSeqNum huntouched.seqStore))
    · exact fun h => hsame h.1

/-- What a message does to a closed session. -/
theorem untouched_attempt_iff (hstate : session.state = .disconnected) :
    session.Untouched (attempt ctx session msgStr) ↔ Ignored ctx session msgStr := by
  by_cases htyped : ∃ seqNum c, header msgStr = some (seqNum, some c)
  · obtain ⟨seqNum, c, hheader⟩ := htyped
    obtain ⟨map, hmap, hhandle⟩ := handleProtocolMessage_eq ctx session hheader
    rw [ignored_iff hheader, attempt, atException, hheader, hhandle]
    by_cases hlogout : c = '5'
    · subst hlogout
      exact iff_of_false (not_untouched_event _ _ _ _ _) (by simp)
    by_cases hreset : c = '4'
    · subst hreset
      have hiff : session.Untouched
          ((dispatch ctx session msgStr map '4').getD (session, [])) ↔ _ :=
        untouched_handleSequenceReset_iff hmap
      simpa using hiff
    · by_cases hlow : seqNum < session.seqStore.inSeqNum
      · simp [hlogout, hreset, hlow, disconnect_of_disconnected hstate, untouched_self session]
      · have hiff := @untouched_noted_iff ctx session msgStr map seqNum c hreset hlogout
        simpa [hlogout, hreset, hlow, UInt32.not_lt.mp hlow] using hiff
  · push Not at htyped
    rw [attempt_of_untyped htyped]
    refine iff_of_true (untouched_self session) ⟨?_, ?_, ?_⟩
    · exact fun n => htyped n '5'
    · exact fun n hn => absurd hn (htyped n '4')
    · exact fun n c hn => absurd hn (htyped n c)

end Message

/-- The session is closed when `disconnect` has run. -/
theorem state_attempt_of_callsDisconnect {ctx : ReadContext} {session : FixClientSession}
    {msgStr : Message} (h : session.callsDisconnect msgStr = true) :
    (attempt ctx session msgStr).1.state = .disconnected := by
  unfold callsDisconnect at h
  split at h
  · next seqNum c hheader =>
      obtain ⟨map, _, hhandle⟩ := handleProtocolMessage_eq ctx session hheader
      rw [attempt, hhandle]
      obtain rfl | ⟨hreset, hlow⟩ := of_decide_eq_true h
      · exact state_disconnect session
      · by_cases hlogout : c = '5'
        · subst hlogout
          exact state_disconnect session
        · simp [hreset, hlogout, hlow, state_disconnect session]
  · cases h

end FixClientSession

open FixClientSession

/-! ## Runs -/

/-- A message handled after `disconnect` has run, and before `connect` is called. -/
structure LateFrame where
  before : FixClientSession
  left : FixClientSession × List ReadEffect

structure Reader where
  session : FixClientSession
  readBuffer : Message
  /-- Has `disconnect` run in the read handler since `connect` was called? -/
  disconnected : Bool
  /-- An exception has ended the network thread. -/
  ended : Bool
  late : List LateFrame

inductive ReaderEvent where
  | connect
  /-- A read is completed. -/
  | read (ctx : ℕ → ReadContext) (data : Message)
  /-- Whatever else becomes of the session between two reads. -/
  | elsewhere (session : FixClientSession)

namespace Reader

def start (session : FixClientSession) (readBuffer : Message) : Reader :=
  ⟨session, readBuffer, false, false, []⟩

/-- The loop goes on after a disconnect, but not after an exception. -/
def handle (s : Reader) (m : ReadContext × Message) : Reader :=
  if s.ended then s
  else
    { s with
      session := (attempt m.1 s.session m.2).1
      disconnected := s.disconnected || s.session.callsDisconnect m.2
      ended := (handleProtocolMessage m.1 s.session m.2).isNone
      late := if s.disconnected then s.late ++ [⟨s.session, attempt m.1 s.session m.2⟩]
        else s.late }

/-- The messages that a read completes. -/
def messages (s : Reader) (ctx : ℕ → ReadContext) (data : Message) :
    List (ReadContext × Message) :=
  messagesOf ctx (s.readBuffer ++ data).length 0 (s.readBuffer ++ data)

/-- No read is completed on a closed socket. -/
def step (s : Reader) : ReaderEvent → Reader
  | .connect =>
      { s with session := (s.session.changeState .connecting).1, disconnected := false }
  | .read ctx data =>
      if s.disconnected ∨ s.ended then s
      else
        { (s.messages ctx data).foldl handle s with
          readBuffer := ((readLoop.feed (s.readBuffer ++ data)).2).getD [] }
  | .elsewhere session => { s with session := session }

/-- What comes after a disconnect leaves everything as it is. -/
def Final (s : Reader) : Prop := ∀ frame ∈ s.late, frame.before.Untouched frame.left

/-- A message that comes after a disconnect is one that a closed session ignores. -/
def Harmless (s : Reader) (m : ReadContext × Message) : Prop :=
  s.disconnected = true → s.ended = false → Ignored m.1 s.session m.2

/-- In a read, what follows the message that disconnects is harmless. -/
def HarmlessRest (s : Reader) : ReaderEvent → Prop
  | .read ctx data => s.disconnected = false → s.ended = false →
      TotalRun.Meets handle Harmless s (s.messages ctx data)
  | _ => True

variable {s : Reader}

/-! ### The reads are those of the handler -/

theorem handle_of_ended (h : s.ended = true) (m : ReadContext × Message) : s.handle m = s :=
  if_pos h

theorem foldl_handle_of_ended (h : s.ended = true) (ms : List (ReadContext × Message)) :
    ms.foldl handle s = s := by
  induction ms with
  | nil => rfl
  | cons m ms ih => rw [List.foldl_cons, handle_of_ended h, ih]

theorem run_handleStep_eq (h : s.ended = false) (ms : List (ReadContext × Message)) :
    PartialRun.run handleStep s.session ms =
      if (ms.foldl handle s).ended then none else some (ms.foldl handle s).session := by
  induction ms generalizing s with
  | nil => simp [h]
  | cons m ms ih =>
      rw [PartialRun.run, handleStep, List.foldl_cons]
      cases hhandle : handleProtocolMessage m.1 s.session m.2 with
      | none =>
          have hended : (s.handle m).ended = true := by simp [handle, h, hhandle]
          rw [foldl_handle_of_ended hended, hended]
          rfl
      | some r =>
          have hended : (s.handle m).ended = false := by simp [handle, h, hhandle]
          have hsession : (s.handle m).session = r.1 := by simp [handle, h, attempt, hhandle]
          rw [← ih hended, hsession]
          rfl

theorem readRounds_rest {ctx : ℕ → ReadContext} {fuel i : ℕ} {session : FixClientSession}
    {readBuffer : Message} {r : FixClientSession × Message × List ReadEffect}
    (h : readRounds ctx fuel i session readBuffer = some r) :
    (readLoop.drain fuel readBuffer).2 = some r.2.1 := by
  induction fuel generalizing i session readBuffer r with
  | zero => exact Option.some.inj h ▸ rfl
  | succ fuel ih =>
      cases hround : readRound readBuffer with
      | wait =>
          rw [readRounds, hround] at h
          rw [Framing.Loop.drain_wait hround, ← Option.some.inj h]
      | stop => exact absurd hround (readRound_ne_stop readBuffer)
      | next message rest =>
          rw [readRounds_next hround] at h
          obtain ⟨_, _, h⟩ := Option.bind_eq_some_iff.mp h
          obtain ⟨r', hr', rfl⟩ := Option.map_eq_some_iff.mp h
          have hrest := ih hr'
          rw [Framing.Loop.drain_next hround]
          exact hrest

/-- A read is one call of the read handler. -/
theorem readStep_eq (hopen : s.disconnected = false) (hrunning : s.ended = false)
    (ctx : ℕ → ReadContext) (data : Message) :
    readStep (s.session, s.readBuffer) (ctx, data) =
      if (s.step (.read ctx data)).ended then none
      else some ((s.step (.read ctx data)).session, (s.step (.read ctx data)).readBuffer) := by
  have hstep : s.step (.read ctx data) =
      { (s.messages ctx data).foldl handle s with
        readBuffer := ((readLoop.feed (s.readBuffer ++ data)).2).getD [] } :=
    if_neg (by simp [hopen, hrunning])
  have hrun := readRounds_eq_run ctx (s.readBuffer ++ data).length 0 s.session
    (s.readBuffer ++ data)
  have hmessages := run_handleStep_eq hrunning (s.messages ctx data)
  rw [messages] at hmessages hstep
  rw [hmessages] at hrun
  rw [readStep, doRead, hstep]
  generalize (messagesOf _ _ _ _).foldl handle s = t at hrun
  dsimp only
  cases hrounds : readRounds ctx (s.readBuffer ++ data).length 0 s.session
      (s.readBuffer ++ data) with
  | none =>
      rw [hrounds] at hrun
      cases hended : t.ended with
      | true => rfl
      | false => simp [hended] at hrun
  | some r =>
      have hrest := readRounds_rest hrounds
      rw [hrounds] at hrun
      cases hended : t.ended with
      | true => simp [hended] at hrun
      | false =>
          have hsession : r.1 = t.session := by simpa [hended] using hrun
          rw [← hsession, Framing.Loop.feed, hrest]
          rfl

/-! ### What one message and one event keep -/

theorem final_handle (m : ReadContext × Message)
    (hclosed : s.disconnected = true → s.Final → s.session.state = .disconnected) :
    ((s.handle m).disconnected = true → (s.handle m).Final →
        (s.handle m).session.state = .disconnected) ∧
      ((s.handle m).Final ↔ s.Final ∧ s.Harmless m) := by
  unfold handle
  by_cases hended : s.ended = true
  · rw [if_pos hended]
    exact ⟨hclosed, by simp [Harmless, hended]⟩
  rw [if_neg hended]
  cases hdisconnected : s.disconnected with
  | false =>
      refine ⟨fun hcalls _ => ?_, by simp [Final, Harmless, hdisconnected]⟩
      apply state_attempt_of_callsDisconnect
      simpa using hcalls
  | true =>
      have hconcat : (∀ frame ∈ s.late ++ [⟨s.session, attempt m.1 s.session m.2⟩],
          frame.before.Untouched frame.left) ↔
            s.Final ∧ s.session.Untouched (attempt m.1 s.session m.2) := by
        simp [Final, or_imp, forall_and]
      have hclosed := hclosed hdisconnected
      constructor
      · intro _ hfinal
        obtain ⟨hfinal, huntouched⟩ := hconcat.mp hfinal
        exact huntouched.state.trans (hclosed hfinal)
      · refine hconcat.trans (and_congr_right fun hfinal => ?_)
        rw [untouched_attempt_iff (hclosed hfinal), Harmless]
        simp [hdisconnected, hended]

theorem final_step (s : Reader) (event : ReaderEvent) :
    (s.step event).Final ↔ s.Final ∧ s.HarmlessRest event := by
  cases event with
  | connect => exact (and_iff_left trivial).symm
  | elsewhere session => exact (and_iff_left trivial).symm
  | read ctx data =>
      by_cases hidle : s.disconnected = true ∨ s.ended = true
      · rw [step, if_pos hidle]
        refine (and_iff_left ?_).symm
        rintro hopen hrunning
        simp [hopen, hrunning] at hidle
      · rw [step, if_neg hidle]
        simp only [not_or, Bool.not_eq_true] at hidle
        have hrun : ((s.messages ctx data).foldl handle s).Final ↔
            s.Final ∧ TotalRun.Meets handle Harmless s (s.messages ctx data) := by
          apply TotalRun.foldl_iff_and
            fun s => s.disconnected = true → s.Final → s.session.state = .disconnected
          · exact fun s m hclosed _ => final_handle m hclosed
          · simp [hidle.1]
          · exact TotalRun.meets_of_forall fun _ _ => trivial
        refine hrun.trans (and_congr_right fun _ => ?_)
        simp [HarmlessRest, hidle]

/-- In every run, whatever the reads are cut into and wherever a connection is made
anew, a disconnect is final if and only if all that follows one in the same buffer is
harmless. -/
theorem disconnect_final_iff (session : FixClientSession) (readBuffer : Message)
    (events : List ReaderEvent) :
    (events.foldl step (start session readBuffer)).Final ↔
      TotalRun.Meets step HarmlessRest (start session readBuffer) events :=
  TotalRun.foldl_exact final_step (by simp [Final, start])

/-! ## A logon after a logout -/

/-- The two arrive in one read. -/
def logoutAndLogon : List ReaderEvent :=
  [.read (fun _ => ⟨0, 0, none⟩)
    (OutboundMessageBuilder.buildLogout "EXCH".toList "C1".toList 2 [] 0 ++
      OutboundMessageBuilder.buildLogon "EXCH".toList "C1".toList 2 30 0)]

/-- The logon makes the session active again, on a socket that has been closed. -/
theorem logon_after_logout :
    ((logoutAndLogon.foldl step (start InboundHistory.loggedOn [])).late.map
        fun frame => (frame.before.state, frame.left.1.state)) = [(.disconnected, .active)] ∧
    ¬∀ session readBuffer, ∀ events : List ReaderEvent,
      (events.foldl step (start session readBuffer)).Final := by
  have hlate : ((logoutAndLogon.foldl step (start InboundHistory.loggedOn [])).late.map
      fun frame => (frame.before.state, frame.left.1.state)) = [(.disconnected, .active)] := by
    decide +kernel
  refine ⟨hlate, fun h => ?_⟩
  have hmem := List.mem_singleton_self (FixClientState.disconnected, FixClientState.active)
  rw [← hlate] at hmem
  obtain ⟨frame, hframe, hstates⟩ := List.mem_map.mp hmem
  have hstate := (h InboundHistory.loggedOn [] logoutAndLogon frame hframe).state
  rw [(Prod.mk.inj hstates).1, (Prod.mk.inj hstates).2] at hstate
  cases hstate

end Reader

end BetaTrader
