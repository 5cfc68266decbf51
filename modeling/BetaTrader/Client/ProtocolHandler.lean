import BetaTrader.Client.ClientFraming
import BetaTrader.Client.FixClientSession
import BetaTrader.Client.FixMessageParser
import BetaTrader.Lib.Run

/-!
# What the client does with a message

`handleProtocolMessage` and the functions that it calls, and the read handler
around it.  `none` is an exception that leaves the handler.
-/

namespace BetaTrader

inductive FixClientEventType where
  | session
  | reject
  | executionReport
  | marketData
  | transportError
  deriving DecidableEq

/-- What the read handler does apart from changing the session. -/
inductive ReadEffect where
  | doWrite (message : Message)
  /-- The timers are cancelled and the socket is closed. -/
  | close
  /-- The callbacks, where they have been set. -/
  | stateChange (newState : FixClientState)
  | event (type : FixClientEventType) (message : Message)
  | message (parsed : ParsedFixMessage)
  | startHeartbeatTimer

/-- What the handler of one message reads from outside the session. -/
structure ReadContext where
  now : Timestamp
  /-- What local time is ahead of UTC, in seconds. -/
  utcOffset : ℤ
  /-- The name that `to_string` reads for a symbol that has never been set; `none`
  when the read fails. -/
  unsetSymbol : Option Message

namespace FixClientSession

open FixUtils OutboundMessageBuilder

/-! ## Texts of events -/

def boundedText (value : Message) : Message := value.take 160

def safeEventText (value : Message) : Message :=
  if ["password", "secret", "token", "api_key"].any fun word =>
      (Text.find word.toList (value.map Char.toLower)).isSome then
    "[redacted sensitive detail]".toList
  else boundedText value

def executionSummary (report : ExecutionReport Double) : Message :=
  "Order ".toList ++ report.clientOrderId.toList ++ ' ' :: report.status.name ++
    ' ' :: report.symbol.name ++
    " cumulative=".toList ++ Decimal.natText report.cumulativeQuantity.toNat ++
    " leaves=".toList ++ Decimal.natText report.leavesQuantity.toNat

/-- The summary of market data of either kind. -/
def marketDataSummary (kind symbol : Message) (entries : ℕ) : Message :=
  kind ++ symbol ++ " entries=".toList ++ Decimal.natText entries

/-! ## Handlers -/

section Handlers

variable (ctx : ReadContext) (session : FixClientSession) (msgStr : Message) (map : TagMap)

def changeState (newState : FixClientState) : FixClientSession × List ReadEffect :=
  ({ session with state := newState }, [.stateChange newState])

def disconnect : FixClientSession × List ReadEffect :=
  if session.state = .disconnected then (session, [])
  else
    let (session, effects) := session.changeState .disconnected
    (session, .close :: effects)

def setSeqNums (inSeq outSeq : UInt32) : FixClientSession :=
  { session with seqStore := { inSeqNum := inSeq, outSeqNum := outSeq } }

/-- The number in a field, narrowed to 32 bits; `0` without the field. -/
def fieldNumber (tag : ℕ) : Option UInt32 :=
  match map tag with
  | none => some 0
  | some value => (Strtoul.stoul (String.ofList value)).map UInt32.ofNat

def handleLogonResponse : FixClientSession × List ReadEffect :=
  let (session, effects) := session.changeState .active
  (session, effects ++ [.event .session "Logon accepted; session active".toList,
    .startHeartbeatTimer])

def handleTestRequest : FixClientSession × List ReadEffect :=
  let outSeq := session.seqStore.outSeqNum
  (session.setSeqNums session.seqStore.inSeqNum (outSeq + 1),
    [.doWrite (buildHeartbeat session.senderCompId session.targetCompId outSeq
      ((map (112 : ℕ)).getD []) ctx.now)])

/-- The number of the message that fills the gap is the first one asked for. -/
def handleResendRequest : Option (FixClientSession × List ReadEffect) := do
  let beginSeqNo ← fieldNumber map 7
  let _endSeqNo ← fieldNumber map 16
  let body := ofFields [(123, ['Y']), (36, Decimal.natText session.seqStore.outSeqNum.toNat)]
  return (session, [.doWrite (buildMessage session.senderCompId session.targetCompId beginSeqNo
    ['4'] body ctx.now)])

def handleSequenceReset : Option (FixClientSession × List ReadEffect) :=
  match map (36 : ℕ) with
  | none => some (session, [])
  | some _ => do
      let newSeqNo ← fieldNumber map 36
      return (session.setSeqNums newSeqNo session.seqStore.outSeqNum, [])

def handleLogoutResponse : FixClientSession × List ReadEffect :=
  let (session, effects) := session.disconnect
  (session, .event .session "Logout acknowledged".toList :: effects)

/-- A reject of the session or of the application. -/
def handleReject : FixClientSession × List ReadEffect :=
  let reason := (map Tag.text.number).getD []
  (session, [.event .reject (if reason = [] then "FIX reject received".toList
    else "FIX reject: ".toList ++ safeEventText reason)])

/-- Reports and market data. -/
def handleApplicationMessage : Option (FixClientSession × List ReadEffect) :=
  match FixMessageParser.parse ctx.utcOffset msgStr with
  | .monostate => some (session, [])
  | .executionReport report => some (session,
      [.event .executionReport (executionSummary report), .message (.executionReport report)])
  | .snapshot snapshot => some (session,
      [.event .marketData (marketDataSummary "Snapshot ".toList snapshot.symbol.name
        snapshot.entries.length), .message (.snapshot snapshot)])
  | .incremental refresh => do
      let symbol ← refresh.symbol.elim ctx.unsetSymbol fun symbol => some symbol.name
      return (session,
        [.event .marketData (marketDataSummary "Incremental ".toList symbol
          refresh.entries.length), .message (.incremental refresh)])

/-- The types that have a `case` of their own. -/
def protocolTypes : List Char := ['A', '0', '1', '2', '4', '5', '3', 'j']

/-- The `switch`. -/
def dispatch (msgType : Char) : Option (FixClientSession × List ReadEffect) :=
  if msgType = 'A' then some session.handleLogonResponse
  else if msgType = '0' then some (session, [])
  else if msgType = '1' then some (handleTestRequest ctx session map)
  else if msgType = '2' then handleResendRequest ctx session map
  else if msgType = '4' then handleSequenceReset session map
  else if msgType = '5' then some session.handleLogoutResponse
  else if msgType = '3' ∨ msgType = 'j' then some (handleReject session map)
  else handleApplicationMessage ctx session msgStr

def handleProtocolMessage : Option (FixClientSession × List ReadEffect) := do
  let map ← splitToMap msgStr soh
  let seqNum ← fieldNumber map Tag.msgSeqNum.number
  match (map Tag.msgType.number).bind List.head? with
  | none => return (session, [])
  | some msgType =>
      if msgType = '4' ∨ msgType = '5' then dispatch ctx session msgStr map msgType
      else if seqNum < session.seqStore.inSeqNum then return session.disconnect
      else
        -- the expected number, or behind a gap
        dispatch ctx (session.setSeqNums (seqNum + 1) session.seqStore.outSeqNum) msgStr map
          msgType

end Handlers

/-! ## The parts of every message -/

section Header

variable {ctx : ReadContext} {session : FixClientSession} {msgStr : Message}
  {seqNum : UInt32} {c : Char}

/-- What is read of every message: MsgSeqNum, and the character of MsgType if there
is one. -/
def header (msgStr : Message) : Option (UInt32 × Option Char) := do
  let map ← splitToMap msgStr soh
  let seqNum ← fieldNumber map Tag.msgSeqNum.number
  return (seqNum, (map Tag.msgType.number).bind List.head?)

theorem header_eq_some_iff {msgType : Option Char} :
    header msgStr = some (seqNum, msgType) ↔ ∃ map, splitToMap msgStr soh = some map ∧
      fieldNumber map Tag.msgSeqNum.number = some seqNum ∧
      (map Tag.msgType.number).bind List.head? = msgType := by
  simp [header, Option.bind_eq_some_iff]

/-- The handler as a case distinction on what it reads first. -/
theorem handleProtocolMessage_eq (ctx : ReadContext) (session : FixClientSession)
    (h : header msgStr = some (seqNum, some c)) :
    ∃ map, splitToMap msgStr soh = some map ∧
      handleProtocolMessage ctx session msgStr =
        if c = '4' ∨ c = '5' then dispatch ctx session msgStr map c
        else if seqNum < session.seqStore.inSeqNum then some session.disconnect
        else dispatch ctx (session.setSeqNums (seqNum + 1) session.seqStore.outSeqNum) msgStr
          map c := by
  obtain ⟨map, hmap, hnumber, htype⟩ := header_eq_some_iff.mp h
  refine ⟨map, hmap, ?_⟩
  rw [handleProtocolMessage, hmap, Option.bind_eq_bind, Option.bind_some, hnumber,
    Option.bind_eq_bind, Option.bind_some, htype]
  rfl

theorem handleProtocolMessage_of_header_none (h : header msgStr = none) :
    handleProtocolMessage ctx session msgStr = none := by
  rw [handleProtocolMessage]
  cases hmap : splitToMap msgStr soh with
  | none => rfl
  | some map =>
      cases hnumber : fieldNumber map Tag.msgSeqNum.number with
      | none => simp [hnumber]
      | some seqNum => simp [header, hmap, hnumber] at h

theorem handleProtocolMessage_of_untyped (h : header msgStr = some (seqNum, none)) :
    handleProtocolMessage ctx session msgStr = some (session, []) := by
  obtain ⟨map, hmap, hnumber, htype⟩ := header_eq_some_iff.mp h
  rw [handleProtocolMessage, hmap, Option.bind_eq_bind, Option.bind_some, hnumber,
    Option.bind_eq_bind, Option.bind_some, htype]
  rfl

end Header

/-! ## The read handler -/

section Read

variable (ctx : ℕ → ReadContext)

/-- The `while` loop, for at most `fuel` rounds; the round `i` reads `ctx i` from
outside. -/
def readRounds : ℕ → ℕ → FixClientSession → Message →
    Option (FixClientSession × Message × List ReadEffect)
  | 0, _, session, readBuffer => some (session, readBuffer, [])
  | fuel + 1, i, session, readBuffer =>
      match readRound readBuffer with
      | .next message rest => do
          let (session, effects) ← handleProtocolMessage (ctx i) session message
          let (session, readBuffer, effects') ← readRounds fuel (i + 1) session rest
          return (session, readBuffer, effects ++ effects')
      | _ => some (session, readBuffer, [])

/-- Every round takes something from the buffer, so its length is enough. -/
def doRead (session : FixClientSession) (readBuffer data : Message) :
    Option (FixClientSession × Message × List ReadEffect) :=
  readRounds ctx (readBuffer ++ data).length 0 session (readBuffer ++ data)

end Read

/-! ## The messages that the handler survives -/

section Readable

variable {ctx : ReadContext} {session : FixClientSession} {msgStr : Message} {map : TagMap}

/-- If there is the field, it begins like a number that 64 bits hold. -/
def HasNumber (map : TagMap) (tag : ℕ) : Prop :=
  ∀ value, map tag = some value → ∃ n, Strtoul.stoul (String.ofList value) = some n

/-- What the functions for the types of messages ask for: the numbers of a resend
request and of a sequence reset, and a symbol in an incremental refresh. -/
structure Convertible (ctx : ReadContext) (msgStr : Message) (map : TagMap) (msgType : Char) :
    Prop where
  resend : msgType = '2' → HasNumber map 7 ∧ HasNumber map 16
  reset : msgType = '4' → HasNumber map 36
  symbol : msgType ∉ protocolTypes → ∀ refresh,
    FixMessageParser.parse ctx.utcOffset msgStr = .incremental refresh →
      refresh.symbol = none → ctx.unsetSymbol ≠ none

/-- The fields of the message have numbers for tags, MsgSeqNum is a number, and so
is what its type asks for, unless the message is refused for its number. -/
structure Readable (ctx : ReadContext) (session : FixClientSession) (msgStr : Message) : Prop where
  splits : Splits msgStr soh
  seqNum : ∀ map, splitToMap msgStr soh = some map → HasNumber map Tag.msgSeqNum.number
  converts : ∀ map seqNum msgType, splitToMap msgStr soh = some map →
    fieldNumber map Tag.msgSeqNum.number = some seqNum →
    (map Tag.msgType.number).bind List.head? = some msgType →
    msgType = '4' ∨ msgType = '5' ∨ session.seqStore.inSeqNum ≤ seqNum →
      Convertible ctx msgStr map msgType

theorem fieldNumber_isSome_iff (map : TagMap) (tag : ℕ) :
    (fieldNumber map tag).isSome ↔ HasNumber map tag := by
  rw [fieldNumber, HasNumber]
  cases map tag with
  | none => simp
  | some value => simp [Option.isSome_iff_exists]

theorem handleResendRequest_isSome_iff :
    (handleResendRequest ctx session map).isSome ↔ HasNumber map 7 ∧ HasNumber map 16 := by
  rw [← fieldNumber_isSome_iff, ← fieldNumber_isSome_iff, handleResendRequest]
  cases fieldNumber map 7 with
  | none => simp
  | some beginSeqNo =>
      cases fieldNumber map 16 with
      | none => simp
      | some endSeqNo => simp

theorem handleSequenceReset_isSome_iff :
    (handleSequenceReset session map).isSome ↔ HasNumber map 36 := by
  rw [← fieldNumber_isSome_iff, handleSequenceReset]
  cases hvalue : map (36 : ℕ) with
  | none =>
      rw [fieldNumber, hvalue]
      simp
  | some value =>
      cases fieldNumber map 36 with
      | none => simp
      | some newSeqNo => simp

theorem handleApplicationMessage_isSome_iff :
    (handleApplicationMessage ctx session msgStr).isSome ↔ ∀ refresh,
      FixMessageParser.parse ctx.utcOffset msgStr = .incremental refresh →
        refresh.symbol = none → ctx.unsetSymbol ≠ none := by
  rw [handleApplicationMessage]
  cases FixMessageParser.parse ctx.utcOffset msgStr with
  | monostate => simp
  | executionReport report => simp
  | snapshot snapshot => simp
  | incremental refresh =>
      cases hsymbol : refresh.symbol with
      | some symbol => simp [hsymbol]
      | none => cases ctx.unsetSymbol <;> simp [hsymbol]

theorem dispatch_isSome_iff (msgType : Char) :
    (dispatch ctx session msgStr map msgType).isSome ↔ Convertible ctx msgStr map msgType := by
  have hiff : Convertible ctx msgStr map msgType ↔
      (msgType = '2' → HasNumber map 7 ∧ HasNumber map 16) ∧ (msgType = '4' → HasNumber map 36) ∧
        (msgType ∉ protocolTypes → ∀ refresh,
          FixMessageParser.parse ctx.utcOffset msgStr = .incremental refresh →
            refresh.symbol = none → ctx.unsetSymbol ≠ none) :=
    ⟨fun h => ⟨h.resend, h.reset, h.symbol⟩, fun h => ⟨h.1, h.2.1, h.2.2⟩⟩
  rw [hiff, dispatch]
  by_cases hresend : msgType = '2'
  · subst hresend
    simp [protocolTypes, handleResendRequest_isSome_iff]
  · by_cases hreset : msgType = '4'
    · subst hreset
      simp [protocolTypes, handleSequenceReset_isSome_iff]
    · simp only [hresend, hreset, if_false, false_implies, true_and]
      by_cases hprotocol : msgType ∈ protocolTypes
      · simp only [protocolTypes, List.mem_cons, List.not_mem_nil, or_false, hresend, hreset,
          false_or] at hprotocol
        rcases hprotocol with rfl | rfl | rfl | rfl | rfl | rfl <;> simp [protocolTypes]
      · have hothers := hprotocol
        simp only [protocolTypes, List.mem_cons, List.not_mem_nil, not_or] at hothers
        simp only [hothers, if_false, or_self, hprotocol, not_false_eq_true, true_implies]
        exact handleApplicationMessage_isSome_iff

theorem header_isSome_iff (msgStr : Message) : (header msgStr).isSome ↔
    Splits msgStr soh ∧
      ∀ map, splitToMap msgStr soh = some map → HasNumber map Tag.msgSeqNum.number := by
  rw [← splitToMap_isSome_iff, header]
  cases splitToMap msgStr soh with
  | none => simp
  | some map =>
      simp only [Option.isSome_some, true_and, Option.some.injEq, forall_eq',
        ← fieldNumber_isSome_iff]
      cases hnumber : fieldNumber map Tag.msgSeqNum.number <;> simp [hnumber]

theorem readable_iff {seqNum : UInt32} {msgType : Option Char}
    (h : header msgStr = some (seqNum, msgType)) (hmap : splitToMap msgStr soh = some map) :
    Readable ctx session msgStr ↔ ∀ c, msgType = some c →
      c = '4' ∨ c = '5' ∨ session.seqStore.inSeqNum ≤ seqNum → Convertible ctx msgStr map c := by
  have hread := (header_isSome_iff msgStr).mp (by rw [h]; rfl)
  obtain ⟨map', hmap', hnumber, rfl⟩ := header_eq_some_iff.mp h
  obtain rfl := Option.some.inj (hmap.symm.trans hmap')
  constructor
  · exact fun hreadable c => hreadable.converts map seqNum c hmap hnumber
  · intro hconverts
    refine ⟨hread.1, hread.2, fun map' seqNum' c hmap' hnumber' => ?_⟩
    obtain rfl := Option.some.inj (hmap.symm.trans hmap')
    obtain rfl := Option.some.inj (hnumber.symm.trans hnumber')
    exact hconverts c

/-- The handler returns from just these messages. -/
theorem handleProtocolMessage_isSome_iff (ctx : ReadContext) (session : FixClientSession)
    (msgStr : Message) :
    (handleProtocolMessage ctx session msgStr).isSome ↔ Readable ctx session msgStr := by
  cases hheader : header msgStr with
  | none =>
      rw [handleProtocolMessage_of_header_none hheader]
      apply iff_of_false (by simp)
      intro h
      have hread := (header_isSome_iff msgStr).mpr ⟨h.splits, h.seqNum⟩
      simp [hheader] at hread
  | some r =>
      obtain ⟨seqNum, _ | c⟩ := r
      · obtain ⟨map, hmap, _⟩ := header_eq_some_iff.mp hheader
        rw [handleProtocolMessage_of_untyped hheader, readable_iff hheader hmap]
        simp
      · obtain ⟨map, hmap, hhandle⟩ := handleProtocolMessage_eq ctx session hheader
        rw [hhandle, readable_iff hheader hmap]
        simp only [Option.some.injEq, forall_eq']
        by_cases hfree : c = '4' ∨ c = '5'
        · rw [if_pos hfree, dispatch_isSome_iff]
          rcases hfree with rfl | rfl <;> simp
        · rw [not_or] at hfree
          simp only [hfree, or_self, if_false, false_or]
          split_ifs with hlow
          · simp [hlow]
          · rw [dispatch_isSome_iff]
            simp [UInt32.not_lt.mp hlow]

end Readable

/-! ## Streams -/

section Stream

/-- The messages of one read, each with what is read from outside then. -/
def messagesOf (ctx : ℕ → ReadContext) (fuel i : ℕ) (readBuffer : Message) :
    List (ReadContext × Message) :=
  ((readLoop.drain fuel readBuffer).1.zipIdx i).map fun m => (ctx m.2, m.1)

def handleStep (session : FixClientSession) (m : ReadContext × Message) :
    Option FixClientSession :=
  (handleProtocolMessage m.1 session m.2).map Prod.fst

/-- Every message of the read is readable when it comes to be handled. -/
def ReadableAll (ctx : ℕ → ReadContext) (session : FixClientSession) (readBuffer : Message) :
    Prop :=
  PartialRun.Follows handleStep (fun _ session m => Readable m.1 session m.2) [] session
    (messagesOf ctx readBuffer.length 0 readBuffer)

theorem readRounds_next {ctx : ℕ → ReadContext} {session : FixClientSession}
    {readBuffer message rest : Message} (h : readRound readBuffer = .next message rest)
    (fuel i : ℕ) : readRounds ctx (fuel + 1) i session readBuffer =
      (handleProtocolMessage (ctx i) session message).bind fun r =>
        (readRounds ctx fuel (i + 1) r.1 rest).map fun r' => (r'.1, r'.2.1, r.2 ++ r'.2.2) := by
  rw [readRounds, h]
  dsimp only [Option.bind_eq_bind]
  refine Option.bind_congr fun r _ => ?_
  cases readRounds ctx fuel (i + 1) r.1 rest <;> rfl

/-- The sessions of the loop are those of a run over the messages of the read. -/
theorem readRounds_eq_run (ctx : ℕ → ReadContext) (fuel i : ℕ) (session : FixClientSession)
    (readBuffer : Message) :
    (readRounds ctx fuel i session readBuffer).map Prod.fst =
      PartialRun.run handleStep session (messagesOf ctx fuel i readBuffer) := by
  induction fuel generalizing i session readBuffer with
  | zero => rfl
  | succ fuel ih =>
      cases hround : readRound readBuffer with
      | wait =>
          have hdrain : readLoop.drain (fuel + 1) readBuffer = ([], some readBuffer) :=
            Framing.Loop.drain_wait hround
          rw [readRounds, messagesOf, hround, hdrain]
          rfl
      | stop => exact absurd hround (readRound_ne_stop readBuffer)
      | next message rest =>
          have hdrain : readLoop.drain (fuel + 1) readBuffer =
              (message :: (readLoop.drain fuel rest).1, (readLoop.drain fuel rest).2) :=
            Framing.Loop.drain_next hround
          rw [readRounds_next hround, messagesOf, hdrain, List.zipIdx_cons, List.map_cons,
            PartialRun.run, handleStep]
          cases handleProtocolMessage (ctx i) session message with
          | none => rfl
          | some r =>
              rw [Option.bind_some, Option.map_map, Option.map_some, Option.bind_some]
              exact ih (i + 1) r.1 rest

theorem doRead_isSome_iff (ctx : ℕ → ReadContext) (session : FixClientSession)
    (readBuffer data : Message) : (doRead ctx session readBuffer data).isSome ↔
      ReadableAll ctx session (readBuffer ++ data) := by
  have hrun := readRounds_eq_run ctx (readBuffer ++ data).length 0 session (readBuffer ++ data)
  have hstep (s : FixClientSession) (m : ReadContext × Message) :
      (handleStep s m).isSome ↔ Readable m.1 s m.2 := by
    rw [handleStep, Option.isSome_map, handleProtocolMessage_isSome_iff]
  rw [doRead, ← Option.isSome_map (f := Prod.fst), hrun,
    PartialRun.run_isSome_iff hstep [], ReadableAll]

/-- One completion of a read. -/
def readStep (s : FixClientSession × Message) (read : (ℕ → ReadContext) × Message) :
    Option (FixClientSession × Message) :=
  (doRead read.1 s.1 s.2 read.2).map fun r => (r.1, r.2.1)

/-- The handler returns from all reads of a stream just when all messages that it
takes from the stream are readable when it comes to them. -/
theorem run_readStep_isSome_iff (session : FixClientSession)
    (reads : List ((ℕ → ReadContext) × Message)) :
    (PartialRun.run readStep (session, []) reads).isSome ↔
      PartialRun.Follows readStep (fun _ s read => ReadableAll read.1 s.1 (s.2 ++ read.2)) []
        (session, []) reads := by
  refine PartialRun.run_isSome_iff (fun s read => ?_) [] (session, []) reads
  rw [readStep, Option.isSome_map, doRead_isSome_iff]

end Stream

end FixClientSession

end BetaTrader
