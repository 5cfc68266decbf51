import BetaTrader.Client.SessionCalls
import BetaTrader.Lib.Lists

/-!
# The order of what the client hands on

The numbers of the messages that `handleProtocolMessage` passes to the callback, and
the inbound number that it expects after each message.  MsgSeqNum is read with 64 bits
and compared with 32, its successor has 32 bits as well, and a SequenceReset sets the
number to anything: where none of the three shows, what is handed on is in order.
-/

namespace BetaTrader

/-- The calls of the message callback. -/
def ReadEffect.messages (effects : List ReadEffect) : List ParsedFixMessage :=
  effects.filterMap fun
    | .message parsed => some parsed
    | _ => none

/-- A field as `std::stoul` reads it. -/
def Message.numberAt (msgStr : Message) (tag : ℕ) : Option ℕ :=
  ((FixUtils.splitToMap msgStr soh).bind fun map => map tag).bind
    fun value => Strtoul.stoul (String.ofList value)

/-- The character of MsgType. -/
def Message.msgType (msgStr : Message) : Option Char :=
  (FixUtils.splitToMap msgStr soh).bind fun map => (map Tag.msgType.number).bind List.head?

/-- MsgSeqNum, `0` where there is none. -/
def Message.msgSeqNum (msgStr : Message) : ℕ := (msgStr.numberAt Tag.msgSeqNum.number).getD 0

structure InboundHistory where
  session : FixClientSession
  /-- The numbers of the messages passed to the callback. -/
  delivered : List ℕ
  /-- The expected number at first and after each message. -/
  expected : List UInt32

namespace InboundHistory

open FixUtils FixClientSession

def start (session : FixClientSession) : InboundHistory :=
  ⟨session, [], [session.seqStore.inSeqNum]⟩

def step (s : InboundHistory) (m : ReadContext × Message) : Option InboundHistory :=
  (handleProtocolMessage m.1 s.session m.2).map fun r =>
    { session := r.1
      delivered := s.delivered ++ (ReadEffect.messages r.2).map fun _ => m.2.msgSeqNum
      expected := s.expected ++ [r.1.seqStore.inSeqNum] }

/-- Nothing is handed on twice, and nothing after what follows it. -/
structure InOrder (s : InboundHistory) : Prop where
  delivered : s.delivered.Pairwise (· < ·)
  expected : s.expected.Pairwise (· ≤ ·)

def inSeqNum (s : InboundHistory) : UInt32 := s.session.seqStore.inSeqNum

/-- The message is not refused for its number, which is not one of the two types
exempt from it. -/
def Accepts (s : InboundHistory) (msgStr : Message) : Prop :=
  (∃ c, msgStr.msgType = some c ∧ c ≠ '4' ∧ c ≠ '5') ∧
    s.inSeqNum ≤ UInt32.ofNat msgStr.msgSeqNum

/-- The message is one of those for the callback. -/
def IsReport (m : ReadContext × Message) : Prop :=
  (∃ c, m.2.msgType = some c ∧ c ∉ protocolTypes) ∧
    FixMessageParser.parse m.1.utcOffset m.2 ≠ .monostate

/-- What leaves the order alone: a reset does not go back, the successor of an accepted
number does not wrap round, and a report is above the last one where their numbers, from
`2 ^ 32 - 1` on, say more than the 32 bits that are compared. -/
structure Keeps (s : InboundHistory) (m : ReadContext × Message) : Prop where
  reset : m.2.msgType = some '4' → ∀ n, m.2.numberAt 36 = some n → s.inSeqNum ≤ UInt32.ofNat n
  successor : s.Accepts m.2 → UInt32.ofNat m.2.msgSeqNum = UInt32.ofNat (2 ^ 32 - 1) →
    s.inSeqNum = 0
  narrowed : s.Accepts m.2 → IsReport m → ∀ last ∈ s.delivered.getLast?,
    2 ^ 32 ≤ last + 1 → last < m.2.msgSeqNum

/-! ## What one message does -/

section Message

variable {ctx : ReadContext} {session : FixClientSession} {msgStr : Message} {map : TagMap}
  {r : FixClientSession × List ReadEffect}

theorem numberAt_of_split (hmap : splitToMap msgStr soh = some map) (tag : ℕ) :
    msgStr.numberAt tag = (map tag).bind fun value => Strtoul.stoul (String.ofList value) := by
  rw [Message.numberAt, hmap, Option.bind_some]

theorem fieldNumber_eq (hmap : splitToMap msgStr soh = some map) {tag : ℕ} {number : UInt32}
    (h : fieldNumber map tag = some number) :
    number = UInt32.ofNat ((msgStr.numberAt tag).getD 0) := by
  rw [numberAt_of_split hmap]
  cases hvalue : map tag with
  | none =>
      rw [fieldNumber, hvalue] at h
      exact (Option.some.inj h).symm
  | some value =>
      rw [fieldNumber, hvalue] at h
      obtain ⟨n, hn, hnumber⟩ := Option.map_eq_some_iff.mp h
      rw [Option.bind_some, hn, Option.getD_some, hnumber]

theorem header_eq {seqNum : UInt32} {msgType : Option Char}
    (h : header msgStr = some (seqNum, msgType)) :
    seqNum = UInt32.ofNat msgStr.msgSeqNum ∧ msgStr.msgType = msgType := by
  obtain ⟨map, hmap, hnumber, htype⟩ := header_eq_some_iff.mp h
  refine ⟨fieldNumber_eq hmap hnumber, ?_⟩
  rw [Message.msgType, hmap, Option.bind_some, htype]

theorem inSeqNum_disconnect (session : FixClientSession) :
    session.disconnect.1.seqStore.inSeqNum = session.seqStore.inSeqNum := by
  unfold disconnect
  split <;> rfl

theorem messages_disconnect (session : FixClientSession) :
    ReadEffect.messages session.disconnect.2 = [] := by
  unfold disconnect
  split <;> rfl

/-- A reset is the only type that sets the expected number. -/
theorem inSeqNum_dispatch {c : Char} (hc : c ≠ '4')
    (h : dispatch ctx session msgStr map c = some r) :
    r.1.seqStore.inSeqNum = session.seqStore.inSeqNum := by
  unfold dispatch at h
  rw [if_neg hc] at h
  split_ifs at h
  · exact Option.some.inj h ▸ rfl
  · exact Option.some.inj h ▸ rfl
  · exact Option.some.inj h ▸ rfl
  · obtain ⟨_, _, h⟩ := Option.bind_eq_some_iff.mp h
    obtain ⟨_, _, h⟩ := Option.bind_eq_some_iff.mp h
    exact Option.some.inj h ▸ rfl
  · rw [← Option.some.inj h]
    exact inSeqNum_disconnect session
  · exact Option.some.inj h ▸ rfl
  · unfold handleApplicationMessage at h
    split at h
    · exact Option.some.inj h ▸ rfl
    · exact Option.some.inj h ▸ rfl
    · exact Option.some.inj h ▸ rfl
    · obtain ⟨_, _, h⟩ := Option.bind_eq_some_iff.mp h
      exact Option.some.inj h ▸ rfl

theorem inSeqNum_reset (hmap : splitToMap msgStr soh = some map)
    (h : dispatch ctx session msgStr map '4' = some r) :
    r.1.seqStore.inSeqNum =
      (msgStr.numberAt 36).elim session.seqStore.inSeqNum UInt32.ofNat := by
  have h : handleSequenceReset session map = some r := h
  have hnumber := numberAt_of_split hmap 36
  unfold handleSequenceReset at h
  cases hvalue : map (36 : ℕ) with
  | none =>
      rw [hvalue] at h hnumber
      rw [hnumber, ← Option.some.inj h]
      rfl
  | some value =>
      rw [hvalue] at h hnumber
      obtain ⟨newSeqNo, hnew, h⟩ := Option.bind_eq_some_iff.mp h
      rw [fieldNumber, hvalue] at hnew
      obtain ⟨n, hn, rfl⟩ := Option.map_eq_some_iff.mp hnew
      rw [hnumber, Option.bind_some, hn, ← Option.some.inj h]
      rfl

theorem dispatch_application {c : Char} (hc : c ∉ protocolTypes) :
    dispatch ctx session msgStr map c = handleApplicationMessage ctx session msgStr := by
  simp only [protocolTypes, List.mem_cons, List.not_mem_nil, or_false, not_or] at hc
  obtain ⟨hlogon, hheartbeat, htest, hresend, hreset, hlogout, hreject, hbusiness⟩ := hc
  simp [dispatch, hlogon, hheartbeat, htest, hresend, hreset, hlogout, hreject, hbusiness]

/-- What falls through to the `default` and is parsed is handed on once. -/
theorem messages_of_application {c : Char} (hc : c ∉ protocolTypes)
    (hparse : FixMessageParser.parse ctx.utcOffset msgStr ≠ .monostate)
    (h : dispatch ctx session msgStr map c = some r) :
    ∃ parsed, ReadEffect.messages r.2 = [parsed] := by
  rw [dispatch_application hc] at h
  unfold handleApplicationMessage at h
  split at h
  · next hmonostate => exact absurd hmonostate hparse
  · next report _ => exact ⟨.executionReport report, by rw [← Option.some.inj h]; rfl⟩
  · next snapshot _ => exact ⟨.snapshot snapshot, by rw [← Option.some.inj h]; rfl⟩
  · next refresh _ =>
      obtain ⟨_, _, h⟩ := Option.bind_eq_some_iff.mp h
      exact ⟨.incremental refresh, by rw [← Option.some.inj h]; rfl⟩

/-- Nothing else is. -/
theorem messages_of_not_application {c : Char}
    (hc : c ∈ protocolTypes ∨ FixMessageParser.parse ctx.utcOffset msgStr = .monostate)
    (h : dispatch ctx session msgStr map c = some r) : ReadEffect.messages r.2 = [] := by
  by_cases hprotocol : c ∈ protocolTypes
  · unfold dispatch at h
    split_ifs at h with hlogon hheartbeat htest hresend hreset hlogout hreject
    · exact Option.some.inj h ▸ rfl
    · exact Option.some.inj h ▸ rfl
    · exact Option.some.inj h ▸ rfl
    · obtain ⟨_, _, h⟩ := Option.bind_eq_some_iff.mp h
      obtain ⟨_, _, h⟩ := Option.bind_eq_some_iff.mp h
      exact Option.some.inj h ▸ rfl
    · unfold handleSequenceReset at h
      split at h
      · exact Option.some.inj h ▸ rfl
      · obtain ⟨_, _, h⟩ := Option.bind_eq_some_iff.mp h
        exact Option.some.inj h ▸ rfl
    · rw [← Option.some.inj h]
      exact messages_disconnect session
    · exact Option.some.inj h ▸ rfl
    · simp [protocolTypes, *] at hprotocol
  · rw [dispatch_application hprotocol, handleApplicationMessage,
      hc.resolve_left hprotocol] at h
    exact Option.some.inj h ▸ rfl

end Message

/-! ## One step -/

section Step

variable {s t : InboundHistory} {m : ReadContext × Message}

theorem accepts_iff {c : Char} {msgStr : Message} (hc : msgStr.msgType = some c) :
    s.Accepts msgStr ↔
      (c ≠ '4' ∧ c ≠ '5') ∧ s.inSeqNum ≤ UInt32.ofNat msgStr.msgSeqNum := by
  simp [Accepts, hc]

theorem isReport_iff {c : Char} (hc : m.2.msgType = some c) :
    IsReport m ↔
      c ∉ protocolTypes ∧ FixMessageParser.parse m.1.utcOffset m.2 ≠ .monostate := by
  simp [IsReport, hc]

/-- The message is a reset, is refused or of no type, changes the number only, or is
handed on as well. -/
theorem step_cases (h : s.step m = some t) :
    t.expected = s.expected ++ [t.inSeqNum] ∧
    ((m.2.msgType = some '4' ∧ t.inSeqNum = (m.2.numberAt 36).elim s.inSeqNum UInt32.ofNat ∧
        t.delivered = s.delivered) ∨
      (m.2.msgType ≠ some '4' ∧ ¬s.Accepts m.2 ∧ t.inSeqNum = s.inSeqNum ∧
        t.delivered = s.delivered) ∨
      (m.2.msgType ≠ some '4' ∧ s.Accepts m.2 ∧
        t.inSeqNum = UInt32.ofNat m.2.msgSeqNum + 1 ∧
        (¬IsReport m ∧ t.delivered = s.delivered ∨
          IsReport m ∧ t.delivered = s.delivered ++ [m.2.msgSeqNum]))) := by
  obtain ⟨r, hr, rfl⟩ := Option.map_eq_some_iff.mp h
  refine ⟨rfl, ?_⟩
  cases hheader : header m.2 with
  | none =>
      rw [handleProtocolMessage_of_header_none hheader] at hr
      cases hr
  | some parts =>
      obtain ⟨seqNum, _ | c⟩ := parts
      · obtain ⟨-, htype⟩ := header_eq hheader
        rw [handleProtocolMessage_of_untyped hheader] at hr
        obtain rfl := Option.some.inj hr
        refine Or.inr (Or.inl ⟨by simp [htype], ?_, rfl, by simp [ReadEffect.messages]⟩)
        rintro ⟨⟨c, hsome, _⟩, _⟩
        simp [htype] at hsome
      obtain ⟨rfl, htype⟩ := header_eq hheader
      obtain ⟨map, hmap, hhandle⟩ := handleProtocolMessage_eq m.1 s.session hheader
      rw [hhandle] at hr
      by_cases hreset : c = '4'
      · subst hreset
        rw [if_pos (Or.inl rfl)] at hr
        have hsilent := messages_of_not_application (Or.inl (by decide)) hr
        exact Or.inl ⟨htype, inSeqNum_reset hmap hr, by simp [hsilent]⟩
      have hne : m.2.msgType ≠ some '4' := by simpa [htype] using hreset
      by_cases hlogout : c = '5'
      · subst hlogout
        rw [if_pos (Or.inr rfl)] at hr
        have hsilent := messages_of_not_application (Or.inl (by decide)) hr
        exact Or.inr (Or.inl ⟨hne, by simp [accepts_iff htype], inSeqNum_dispatch hreset hr,
          by simp [hsilent]⟩)
      rw [if_neg (by simp [hreset, hlogout])] at hr
      split_ifs at hr with hlow
      · rw [← Option.some.inj hr]
        refine Or.inr (Or.inl ⟨hne, ?_, inSeqNum_disconnect s.session, ?_⟩)
        · rw [accepts_iff htype, not_and, UInt32.not_le]
          exact fun _ => hlow
        · simp [messages_disconnect]
      · have haccepts : s.Accepts m.2 :=
          (accepts_iff htype).mpr ⟨⟨hreset, hlogout⟩, UInt32.not_lt.mp hlow⟩
        refine Or.inr (Or.inr ⟨hne, haccepts, inSeqNum_dispatch hreset hr, ?_⟩)
        by_cases happlication : IsReport m
        · obtain ⟨hc', hparse⟩ := (isReport_iff htype).mp happlication
          obtain ⟨parsed, hmessages⟩ := messages_of_application hc' hparse hr
          exact Or.inr ⟨happlication, by simp [hmessages]⟩
        · have hnot := mt (isReport_iff htype).mpr happlication
          rw [not_and_or, not_not, not_ne_iff] at hnot
          have hsilent := messages_of_not_application hnot hr
          exact Or.inl ⟨happlication, by simp [hsilent]⟩

/-- The last report handed on is below the expected number, if 32 bits hold its
successor. -/
structure Ordered (s : InboundHistory) : Prop extends InOrder s where
  current : s.expected.getLast? = some s.inSeqNum
  below : ∀ last ∈ s.delivered.getLast?, last + 1 < 2 ^ 32 → last < s.inSeqNum.toNat

theorem ordered_start (session : FixClientSession) : (start session).Ordered where
  delivered := List.Pairwise.nil
  expected := List.pairwise_singleton _ _
  current := rfl
  below := by simp [start]

theorem Ordered.expected_iff (hs : s.Ordered)
    (hexpected : t.expected = s.expected ++ [t.inSeqNum]) :
    t.expected.Pairwise (· ≤ ·) ↔ s.inSeqNum ≤ t.inSeqNum := by
  rw [hexpected, Lists.pairwise_concat_iff, hs.current]
  simp [hs.expected]

theorem Ordered.next (hs : s.Ordered) (hexpected : t.expected = s.expected ++ [t.inSeqNum])
    (hle : s.inSeqNum ≤ t.inSeqNum) (hdelivered : t.delivered = s.delivered) : t.Ordered where
  delivered := hdelivered ▸ hs.delivered
  expected := (hs.expected_iff hexpected).mpr hle
  current := by rw [hexpected, List.getLast?_concat]
  below last hlast hbound := by
    have hbelow := hs.below last (hdelivered ▸ hlast) hbound
    have hle := UInt32.le_iff_toNat_le.mp hle
    omega

theorem Ordered.next_report (hs : s.Ordered)
    (hexpected : t.expected = s.expected ++ [t.inSeqNum]) (hle : s.inSeqNum ≤ t.inSeqNum)
    {n : ℕ} (hdelivered : t.delivered = s.delivered ++ [n])
    (hlast : ∀ last ∈ s.delivered.getLast?, last < n)
    (hbound : n + 1 < 2 ^ 32 → n < t.inSeqNum.toNat) : t.Ordered where
  delivered := by
    rw [hdelivered, Lists.pairwise_concat_iff]
    exact ⟨hs.delivered, hlast⟩
  expected := (hs.expected_iff hexpected).mpr hle
  current := by rw [hexpected, List.getLast?_concat]
  below last hmem := by
    rw [hdelivered, List.getLast?_concat, Option.mem_some_iff] at hmem
    exact hmem ▸ hbound

/-- The successor wraps round to nothing but zero. -/
theorem le_add_one_iff {x n : UInt32} (h : x ≤ n) :
    x ≤ n + 1 ↔ (n = UInt32.ofNat (2 ^ 32 - 1) → x = 0) := by
  have hle := UInt32.le_iff_toNat_le.mp h
  have hn := n.toNat_lt
  rw [UInt32.le_iff_toNat_le, UInt32.toNat_add, ← UInt32.toNat_inj, ← UInt32.toNat_inj]
  simp
  omega

theorem ordered_step (hs : s.Ordered) (h : s.step m = some t) :
    (s.Keeps m → t.Ordered) ∧ (t.InOrder → s.Keeps m) := by
  obtain ⟨hexpected, hreset | hkept | haccepted⟩ := step_cases h
  · obtain ⟨htype, hnumber, hdelivered⟩ := hreset
    have hrefused : ¬s.Accepts m.2 := by simp [accepts_iff htype]
    constructor
    · intro hkeeps
      refine hs.next hexpected ?_ hdelivered
      cases hnew : m.2.numberAt 36 with
      | none => simp [hnumber, hnew]
      | some n =>
          rw [hnumber, hnew]
          exact hkeeps.reset htype n hnew
    · intro horder
      refine ⟨fun _ n hnew => ?_, fun h => absurd h hrefused, fun h => absurd h hrefused⟩
      have hle := (hs.expected_iff hexpected).mp horder.expected
      rwa [hnumber, hnew] at hle
  · obtain ⟨htype, hrefused, hnumber, hdelivered⟩ := hkept
    constructor
    · exact fun _ => hs.next hexpected (UInt32.le_of_eq hnumber.symm) hdelivered
    · exact fun _ => ⟨fun h => absurd h htype, fun h => absurd h hrefused,
        fun h => absurd h hrefused⟩
  · obtain ⟨htype, haccepts, hnumber, hdelivered⟩ := haccepted
    have hsuccessor := le_add_one_iff haccepts.2
    rw [← hnumber] at hsuccessor
    obtain ⟨hsilent, hdelivered⟩ | ⟨hreport, hdelivered⟩ := hdelivered
    · constructor
      · exact fun hkeeps =>
          hs.next hexpected (hsuccessor.mpr (hkeeps.successor haccepts)) hdelivered
      · intro horder
        have hle := (hs.expected_iff hexpected).mp horder.expected
        exact ⟨fun h => absurd h htype, fun _ => hsuccessor.mp hle, fun _ h => absurd h hsilent⟩
    · constructor
      · intro hkeeps
        refine hs.next_report hexpected (hsuccessor.mpr (hkeeps.successor haccepts)) hdelivered
          (fun last hlast => ?_) (fun hbound => ?_)
        · by_cases hbound : last + 1 < 2 ^ 32
          · have hbelow := hs.below last hlast hbound
            have hle := UInt32.le_iff_toNat_le.mp haccepts.2
            have hmod := Nat.mod_le m.2.msgSeqNum (2 ^ 32)
            rw [UInt32.toNat_ofNat'] at hle
            omega
          · exact hkeeps.narrowed haccepts hreport last hlast (by omega)
        · rw [hnumber, UInt32.toNat_add, UInt32.toNat_ofNat']
          simp
          omega
      · intro horder
        have hle := (hs.expected_iff hexpected).mp horder.expected
        have hlast := horder.delivered
        rw [hdelivered, Lists.pairwise_concat_iff] at hlast
        exact ⟨fun h => absurd h htype, fun _ => hsuccessor.mp hle,
          fun _ _ last hmem _ => hlast.2 last hmem⟩

end Step

def loggedOn : FixClientSession :=
  ⟨"C1".toList, "EXCH".toList, .active, ⟨2, 2⟩, false⟩

/-- An order of three lots is filled. -/
def filledReport (seqNum : UInt32) : Message :=
  OutboundMessageBuilder.buildMessage "EXCH".toList "C1".toList seqNum ['8']
    (OutboundMessageBuilder.ofFields
      [(37, ['7']), (11, ['5']), (17, ['9']), (39, ['2']), (55, "EURUSD".toList), (54, ['1']),
        (38, ['3']), (14, ['3']), (151, ['0']), (31, "1.5".toList), (32, ['3']),
        (60, "20240101-00:00:00.000".toList)]) 0

def gapFill (seqNum : UInt32) (newSeqNo : Message) : Message :=
  OutboundMessageBuilder.buildMessage "EXCH".toList "C1".toList seqNum ['4']
    (OutboundMessageBuilder.ofFields [(123, ['Y']), (36, newSeqNo)]) 0

def received (messages : List Message) : List (ReadContext × Message) :=
  messages.map fun msgStr => (⟨0, 0, none⟩, msgStr)

end InboundHistory

end BetaTrader
