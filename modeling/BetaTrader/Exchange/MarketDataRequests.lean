import BetaTrader.Common.FixUtils
import BetaTrader.Common.MarketData

/-!
# Market data requests

What `BinaryToMarketDataRequestConverter` makes of a message, and the publisher,
which has a list of sessions for each symbol.
-/

namespace BetaTrader

structure MarketDataRequest where
  mdReqID : String
  /-- Unset when the message has none. -/
  subscriptionRequestType : Option Char
  /-- Unset when the message has none. -/
  marketDepth : Option ℤ
  symbols : List Instrument
  deriving DecidableEq

def subscriptionRequestTypeSnapshot : Char := '0'

def subscriptionRequestTypeSnapshotAndUpdates : Char := '1'

def subscriptionRequestTypeUnsubscribe : Char := '2'

namespace BinaryToMarketDataRequestConverter

open FixUtils

/-- `std::to_string(static_cast<int>(tag)) + "="`. -/
def key (tag : Tag) : Message := Decimal.natText tag.number ++ ['=']

/-- The loop over the symbols that the message announces. -/
def symbols : ℕ → Message → Option (List Instrument)
  | 0, _ => some []
  | numSymbols + 1, rest => do
      let behind ← Text.afterFirst (key .symbol) rest
      let (symbolStr, rest) ← Text.splitFirst soh behind
      let symbol ← Instrument.fromString symbolStr
      return symbol :: (← symbols numSymbols rest)

theorem soh_notMem_name (symbol : Instrument) : soh ∉ symbol.name := by
  cases symbol <;> decide

/-- Any list of symbols can be asked for. -/
theorem symbols_close (related : List Instrument) (rest : Message) :
    symbols related.length
      (Text.close soh (related.map fun symbol => field 55 symbol.name) ++ rest) =
        some related := by
  induction related with
  | nil => rfl
  | cons symbol related ih =>
      have hkey : key .symbol ≠ [] := by decide
      have hfield : field 55 symbol.name = key .symbol ++ symbol.name := by
        simp [field, key, Tag.number]
      rw [List.map_cons, Text.close_cons, hfield, List.length_cons, symbols]
      simp only [List.append_assoc, List.cons_append, Text.afterFirst_append_self hkey,
        Option.bind_eq_bind, Option.bind_some, Text.splitFirst_append (soh_notMem_name symbol),
        Instrument.fromString_name, ih]
      rfl

/-- The number behind the first `264=`, if there is one. -/
def marketDepth (fixMessage : Message) : Option (Option ℤ) :=
  match Text.between (key .marketDepth) soh fixMessage with
  | none => some none
  | some depthStr => (Strtoul.fromChars depthStr).map some

/-- The symbols that follow the first `146=`; a message without it has none. -/
def relatedSymbols (fixMessage : Message) : Option (List Instrument) :=
  match (Text.afterFirst (key .noRelatedSym) fixMessage).bind (Text.splitFirst soh) with
  | none => some []
  | some (numSymbolsStr, rest) =>
      (Strtoul.fromChars numSymbolsStr).bind fun numSymbols => symbols numSymbols.toNat rest

def convert (fixMessage : Message) : Option MarketDataRequest := do
  let marketDepth ← marketDepth fixMessage
  let symbols ← relatedSymbols fixMessage
  return {
    mdReqID := String.ofList ((Text.between (key .mdReqID) soh fixMessage).getD [])
    -- the character behind the `=`, which closes the field when the value is empty
    subscriptionRequestType :=
      (Text.between (key .subscriptionRequestType) soh fixMessage).map (List.headD · soh)
    marketDepth := marketDepth
    symbols := symbols }

end BinaryToMarketDataRequestConverter

structure MarketDataPublisher where
  /-- A symbol that is not a key of the map has no sessions. -/
  subscriptions : Instrument → List SessionID

namespace MarketDataPublisher

variable (publisher : MarketDataPublisher)

def empty : MarketDataPublisher where
  subscriptions := fun _ => []

def addSubscription (symbol : Instrument) (sessionId : SessionID) : MarketDataPublisher :=
  let sessions := publisher.subscriptions symbol
  if sessionId ∈ sessions then publisher
  else { subscriptions := Function.update publisher.subscriptions symbol (sessions ++ [sessionId]) }

def removeSubscription (symbol : Instrument) (sessionId : SessionID) : MarketDataPublisher :=
  { subscriptions := Function.update publisher.subscriptions symbol
      ((publisher.subscriptions symbol).filter (· ≠ sessionId)) }

/-- `removeSubscription` for all symbols. -/
def removeSession (sessionId : SessionID) : MarketDataPublisher :=
  { subscriptions := fun symbol => (publisher.subscriptions symbol).filter (· ≠ sessionId) }

/-- What the session callbacks are given of a snapshot. -/
def publishSnapshot {P : Type} (snapshot : MarketDataSnapshotFullRefresh P) :
    List (MarketDataSnapshotFullRefresh P) :=
  if snapshot.targetSessionID ≠ 0 then [snapshot] else []

/-- What the session callbacks are given of a refresh: a copy for each subscribed
session, with the session id narrowed to a `CompID`. -/
def publishIncremental {P : Type} (refresh : MarketDataIncrementalRefresh P) :
    List (MarketDataIncrementalRefresh P) :=
  (publisher.subscriptions refresh.symbol).map fun sessionId =>
    { refresh with targetSessionID := some sessionId.toUInt32 }

variable {publisher} {symbol other : Instrument} {sessionId id : SessionID}

theorem mem_addSubscription :
    id ∈ (publisher.addSubscription symbol sessionId).subscriptions other ↔
      id ∈ publisher.subscriptions other ∨ other = symbol ∧ id = sessionId := by
  unfold addSubscription
  by_cases hmem : sessionId ∈ publisher.subscriptions symbol
  · rw [if_pos hmem]
    refine ⟨Or.inl, ?_⟩
    rintro (h | ⟨rfl, rfl⟩)
    · exact h
    · exact hmem
  · rw [if_neg hmem]
    by_cases hother : other = symbol
    · simp [hother]
    · simp [hother]

theorem mem_removeSubscription :
    id ∈ (publisher.removeSubscription symbol sessionId).subscriptions other ↔
      id ∈ publisher.subscriptions other ∧ ¬ (other = symbol ∧ id = sessionId) := by
  unfold removeSubscription
  by_cases hother : other = symbol
  · simp [hother]
  · simp [hother]

theorem mem_removeSession : id ∈ (publisher.removeSession sessionId).subscriptions other ↔
    id ∈ publisher.subscriptions other ∧ id ≠ sessionId := by
  simp [removeSession]

end MarketDataPublisher

end BetaTrader
