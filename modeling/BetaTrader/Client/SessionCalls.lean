import BetaTrader.Client.ProtocolHandler

/-!
# The calls that begin and end a session

`sendLogon`, `sendLogout` and the heartbeat timer of the client's session, and what
reading a message does to the numbers of the messages it sends.
-/

namespace BetaTrader

def SeqNumStore.reset : SeqNumStore := ⟨1, 1⟩

/-- The messages among the effects. -/
def ReadEffect.writes (effects : List ReadEffect) : List Message :=
  effects.filterMap fun
    | .doWrite text => some text
    | _ => none

namespace FixClientSession

open FixUtils OutboundMessageBuilder

variable (session : FixClientSession)

/-- The logon with `141=Y` is built anew, if the interval is found in the first one. -/
def logonMessage (outSeq : UInt32) (heartbeatInterval : ℤ) (forceReset : Bool)
    (now : Timestamp) : Message :=
  let logonMsg := buildLogon session.senderCompId session.targetCompId outSeq heartbeatInterval now
  if forceReset ∧ (Text.find "108=".toList logonMsg).isSome then
    buildMessage session.senderCompId session.targetCompId outSeq ['A']
      (ofFields [(98, ['0']), (108, Decimal.intText heartbeatInterval), (141, ['Y'])]) now
  else logonMsg

def sendLogon (heartbeatInterval : ℤ) (forceReset : Bool) (now : Timestamp) :
    FixClientSession × List ReadEffect :=
  if session.state ≠ .connected ∧ session.state ≠ .disconnected then (session, [])
  else
    let session := if forceReset then { session with seqStore := .reset } else session
    let outSeq := session.seqStore.outSeqNum
    let logonMsg := session.logonMessage outSeq heartbeatInterval forceReset now
    let session := session.setSeqNums session.seqStore.inSeqNum (outSeq + 1)
    let (session, effects) := session.changeState .logonSent
    (session, .doWrite logonMsg :: effects ++ [.event .session "Logon sent".toList])

def sendLogout (reason : Message) (now : Timestamp) : FixClientSession × List ReadEffect :=
  if session.state = .active ∨ session.state = .logonSent then
    let outSeq := session.seqStore.outSeqNum
    let logoutMsg := buildLogout session.senderCompId session.targetCompId outSeq reason now
    let session := session.setSeqNums session.seqStore.inSeqNum (outSeq + 1)
    let (session, effects) := session.changeState .loggingOut
    (session, .doWrite logoutMsg :: effects ++ [.event .session "Logout sent".toList])
  else (session, [])

/-- The handler of the heartbeat timer. -/
def sendHeartbeat (now : Timestamp) : FixClientSession × List ReadEffect :=
  if session.state = .active then
    let outSeq := session.seqStore.outSeqNum
    let hbMsg := buildHeartbeat session.senderCompId session.targetCompId outSeq [] now
    (session.setSeqNums session.seqStore.inSeqNum (outSeq + 1),
      [.doWrite hbMsg, .startHeartbeatTimer])
  else (session, [])

/-- A logon with the session's next number, if a reset leaves that what it is. -/
theorem sendLogon_eq {session : FixClientSession} {forceReset : Bool}
    (hstate : session.state = .connected)
    (hreset : forceReset = true → session.seqStore.outSeqNum = 1) {heartbeatInterval : ℤ}
    {now : Timestamp} : session.sendLogon heartbeatInterval forceReset now =
      ({ session with
          state := .logonSent
          seqStore := ⟨if forceReset then 1 else session.seqStore.inSeqNum,
            session.seqStore.outSeqNum + 1⟩ },
        [.doWrite (session.logonMessage session.seqStore.outSeqNum heartbeatInterval forceReset now),
          .stateChange .logonSent, .event .session "Logon sent".toList]) := by
  have hnot : ¬(session.state ≠ .connected ∧ session.state ≠ .disconnected) :=
    fun h => h.1 hstate
  rw [sendLogon, if_neg hnot]
  cases forceReset with
  | false => rfl
  | true =>
      rw [hreset rfl]
      rfl

/-! ## Reading leaves the numbers alone -/

variable {session} {session' : FixClientSession} {ctx : ReadContext} {msgStr : Message}
  {map : TagMap} {effects : List ReadEffect}

/-- Nothing is sent, and only a logon makes the session active. -/
structure Passive (session : FixClientSession) (msgType : Option Char)
    (r : FixClientSession × List ReadEffect) : Prop where
  senderCompId : r.1.senderCompId = session.senderCompId
  targetCompId : r.1.targetCompId = session.targetCompId
  outSeqNum : r.1.seqStore.outSeqNum = session.seqStore.outSeqNum
  writes : ReadEffect.writes r.2 = []
  active : r.1.state = .active → session.state = .active ∨ msgType = some 'A'

theorem passive_self (session : FixClientSession) (msgType : Option Char)
    {effects : List ReadEffect} (h : ReadEffect.writes effects = []) :
    session.Passive msgType (session, effects) := ⟨rfl, rfl, rfl, h, Or.inl⟩

theorem passive_disconnect (session : FixClientSession) (msgType : Option Char) :
    session.Passive msgType session.disconnect := by
  unfold disconnect
  split_ifs
  · exact passive_self session msgType rfl
  · exact ⟨rfl, rfl, rfl, rfl, nofun⟩

theorem passive_dispatch {c : Char} (htest : c ≠ '1') (hresend : c ≠ '2')
    {r : FixClientSession × List ReadEffect}
    (h : session.dispatch ctx msgStr map c = some r) : session.Passive (some c) r := by
  unfold dispatch at h
  rw [if_neg htest, if_neg hresend] at h
  split_ifs at h with hlogon hheartbeat hreset hlogout hreject
  · rw [← Option.some.inj h, hlogon]
    exact ⟨rfl, rfl, rfl, rfl, fun _ => Or.inr rfl⟩
  · rw [← Option.some.inj h]
    exact passive_self session _ rfl
  · unfold handleSequenceReset at h
    split at h
    · rw [← Option.some.inj h]
      exact passive_self session _ rfl
    · obtain ⟨newSeqNo, _, h⟩ := Option.bind_eq_some_iff.mp h
      rw [← Option.some.inj h]
      exact ⟨rfl, rfl, rfl, rfl, Or.inl⟩
  · rw [← Option.some.inj h]
    have hdisconnect := passive_disconnect session (some c)
    exact ⟨hdisconnect.senderCompId, hdisconnect.targetCompId, hdisconnect.outSeqNum,
      hdisconnect.writes, hdisconnect.active⟩
  · rw [← Option.some.inj h]
    exact passive_self session _ rfl
  · unfold handleApplicationMessage at h
    split at h
    · rw [← Option.some.inj h]
      exact passive_self session _ rfl
    · rw [← Option.some.inj h]
      exact passive_self session _ rfl
    · rw [← Option.some.inj h]
      exact passive_self session _ rfl
    · obtain ⟨symbol, _, h⟩ := Option.bind_eq_some_iff.mp h
      rw [← Option.some.inj h]
      exact passive_self session _ rfl

/-- Of what the server sends, only test and resend requests are answered. -/
theorem passive_handleProtocolMessage {r : FixClientSession × List ReadEffect}
    (h : handleProtocolMessage ctx session msgStr = some r)
    (htype : ∀ map c, splitToMap msgStr soh = some map →
      (map Tag.msgType.number).bind List.head? = some c → c ≠ '1' ∧ c ≠ '2') :
    session.Passive ((splitToMap msgStr soh).bind fun map =>
      (map Tag.msgType.number).bind List.head?) r := by
  obtain ⟨map, hmap, h⟩ := Option.bind_eq_some_iff.mp h
  obtain ⟨seqNum, _, h⟩ := Option.bind_eq_some_iff.mp h
  rw [hmap, Option.bind_some]
  split at h
  · rw [← Option.some.inj h]
    exact passive_self session _ rfl
  · next msgType hmsgType =>
      obtain ⟨htest, hresend⟩ := htype map msgType hmap hmsgType
      rw [hmsgType]
      split_ifs at h
      · exact passive_dispatch htest hresend h
      · rw [← Option.some.inj h]
        exact passive_disconnect session _
      · have hpassive := passive_dispatch htest hresend h
        exact ⟨hpassive.senderCompId, hpassive.targetCompId, hpassive.outSeqNum,
          hpassive.writes, hpassive.active⟩

end FixClientSession

end BetaTrader
