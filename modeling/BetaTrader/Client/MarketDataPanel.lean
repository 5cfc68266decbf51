import BetaTrader.Client.FixClientSession

/-!
# The market data panel

`ConnectionPanel` draws the state that `MarketDataState` keeps of the subscription, and
asks the session for the requests.  The exchange is asked once for each change, and what
it has then is not looked at again: whether the panel tells the truth depends on its own
steps.
-/

namespace BetaTrader

/-! ## The state of the panel -/

inductive MarketDataSubscriptionStatus where
  | disconnected
  | ready
  | subscribed
  deriving DecidableEq

structure MarketDataState where
  symbol : Message
  status : MarketDataSubscriptionStatus
  deriving DecidableEq

namespace MarketDataState

def start : MarketDataState := ⟨"EURUSD".toList, .disconnected⟩

variable (state : MarketDataState)

/-- The returned `bool` is not used. -/
def selectSymbol (symbol : Message) : MarketDataState :=
  if Instrument.fromString symbol = none then state
  else if state.symbol = symbol then state
  else
    { symbol := symbol
      status := if state.status = .subscribed then .ready else state.status }

def canSubscribe (sessionState : FixClientState) : Bool :=
  sessionState = .active ∧ state.status ≠ .subscribed

def markSessionReady : MarketDataState :=
  if state.status = .disconnected then { state with status := .ready } else state

def markSubscribed : MarketDataState := { state with status := .subscribed }

def markDisconnected : MarketDataState := { state with status := .disconnected }

end MarketDataState

/-- A call of `sendMarketDataRequest`. -/
structure MarketDataCall where
  symbol : Message
  subscriptionRequestType : Char
  deriving DecidableEq

namespace ConnectionPanel

/-- What the combo box does with the symbol it reports. -/
def choose (state : MarketDataState) (sessionState : FixClientState) (symbol : Instrument) :
    MarketDataState × List MarketDataCall :=
  (state.selectSymbol symbol.name,
    if state.status = .subscribed ∧ sessionState = .active then [⟨state.symbol, '2'⟩] else [])

/-- The button: only one of the two is drawn. -/
def press (state : MarketDataState) (sessionState : FixClientState) :
    MarketDataState × List MarketDataCall :=
  if state.status = .subscribed then
    (state.markSessionReady, if sessionState = .active then [⟨state.symbol, '2'⟩] else [])
  else if state.canSubscribe sessionState then (state.markSubscribed, [⟨state.symbol, '1'⟩])
  else (state, [])

/-- The part of `render` below the buttons of the session, with the symbol that the combo
box reports, and whether the button is pressed. -/
def marketData (state : MarketDataState) (sessionState : FixClientState)
    (chosen : Option Instrument) (pressed : Bool) : MarketDataState × List MarketDataCall :=
  let state := if sessionState = .disconnected ∨ sessionState = .connecting then
      state.markDisconnected else state.markSessionReady
  let (state, calls) := chosen.elim (state, []) (choose state sessionState)
  let (state, calls') := if pressed then press state sessionState else (state, [])
  (state, calls ++ calls')

end ConnectionPanel

namespace MarketDataCall

/-- About an instrument, to subscribe or to unsubscribe. -/
def Plain (call : MarketDataCall) : Prop :=
  (∃ symbol : Instrument, call.symbol = symbol.name) ∧
    (call.subscriptionRequestType = '1' ∨ call.subscriptionRequestType = '2')

/-- The symbols that are subscribed to after a call, by those before it. -/
def applyTo (subscribed : Instrument → Prop) (call : MarketDataCall) (symbol : Instrument) :
    Prop :=
  if symbol.name ≠ call.symbol then subscribed symbol
  else call.subscriptionRequestType = '1' ∨
    subscribed symbol ∧ call.subscriptionRequestType ≠ '2'

end MarketDataCall

namespace MarketDataState

/-- The state shows the subscription that there is, and no other. -/
def Shows (state : MarketDataState) (subscribed : Instrument → Prop) : Prop :=
  ∀ symbol, subscribed symbol ↔ state.status = .subscribed ∧ state.symbol = symbol.name

/-- What the state shows has been given up. -/
def Stale (state : MarketDataState) (subscribed : Instrument → Prop) : Prop :=
  state.status = .subscribed ∧ ∀ symbol, ¬subscribed symbol

/-- The symbol is that of an instrument. -/
def Named (state : MarketDataState) : Prop := ∃ symbol : Instrument, state.symbol = symbol.name

/-- The user asks a second time for what is shown: presses `Unsubscribe`, or takes the
symbol that is selected. -/
def Repeats (state : MarketDataState) (chosen : Option Instrument) (pressed : Bool) : Prop :=
  state.status = .subscribed ∧
    chosen.elim (pressed = true) fun symbol => state.symbol = symbol.name

variable {state state' : MarketDataState} {subscribed subscribed' : Instrument → Prop}
  {symbol : Instrument}

theorem name_inj {symbol symbol' : Instrument} (h : symbol.name = symbol'.name) :
    symbol = symbol' := by
  have hsome : Instrument.fromString symbol.name = Instrument.fromString symbol'.name :=
    congrArg Instrument.fromString h
  rwa [Instrument.fromString_name, Instrument.fromString_name, Option.some.injEq] at hsome

theorem selectSymbol_name (state : MarketDataState) (symbol : Instrument) :
    state.selectSymbol symbol.name =
      if state.symbol = symbol.name then state
      else ⟨symbol.name, if state.status = .subscribed then .ready else state.status⟩ := by
  rw [selectSymbol, Instrument.fromString_name, if_neg (Option.some_ne_none symbol)]

theorem Named.selectSymbol (h : state.Named) (symbol : Instrument) :
    (state.selectSymbol symbol.name).Named := by
  rw [selectSymbol_name]
  split
  · exact h
  · exact ⟨symbol, rfl⟩

theorem selectSymbol_subscribed (h : (state.selectSymbol symbol.name).status = .subscribed) :
    state.status = .subscribed ∧ state.symbol = symbol.name := by
  rw [selectSymbol_name] at h
  split_ifs at h with hsame hstatus
  · exact ⟨h, hsame⟩
  · exact (hstatus h).elim

theorem markSessionReady_status (state : MarketDataState) :
    state.markSessionReady.status = .subscribed ↔ state.status = .subscribed := by
  rw [markSessionReady]
  split_ifs with hstatus
  · simp [hstatus]
  · rfl

theorem markSessionReady_symbol (state : MarketDataState) :
    state.markSessionReady.symbol = state.symbol := by
  rw [markSessionReady]
  split_ifs <;> rfl

/-- Only a state without a session becomes ready. -/
theorem markSessionReady_of_subscribed (h : state.status = .subscribed) :
    state.markSessionReady = state := by
  rw [markSessionReady, if_neg (by rw [h]; decide)]

theorem shows_markSessionReady : state.markSessionReady.Shows subscribed ↔
    state.Shows subscribed := by
  simp only [Shows, markSessionReady_status, markSessionReady_symbol]

theorem Shows.congr (h : ∀ symbol, subscribed' symbol ↔ subscribed symbol)
    (hshows : state.Shows subscribed) : state.Shows subscribed' :=
  fun symbol => (h symbol).trans (hshows symbol)

theorem shows_of_none (hstatus : state.status ≠ .subscribed)
    (hnone : ∀ symbol, ¬subscribed symbol) : state.Shows subscribed :=
  fun symbol => iff_of_false (hnone symbol) fun h => hstatus h.1

theorem Shows.none (hshows : state.Shows subscribed) (hstatus : state.status ≠ .subscribed)
    (symbol : Instrument) : ¬subscribed symbol :=
  fun h => hstatus ((hshows symbol).mp h).1

theorem Stale.not_shows (h : state.Stale subscribed) (hnamed : state.Named) :
    ¬state.Shows subscribed := by
  obtain ⟨symbol, hsymbol⟩ := hnamed
  exact fun hshows => h.2 symbol ((hshows symbol).mpr ⟨h.1, hsymbol⟩)

theorem Shows.subscribe (hshows : state.Shows subscribed) (hstatus : state.status ≠ .subscribed) :
    state.markSubscribed.Shows (MarketDataCall.applyTo subscribed ⟨state.symbol, '1'⟩) := by
  intro symbol
  rw [MarketDataCall.applyTo]
  split_ifs with hother
  · exact iff_of_false (hshows.none hstatus symbol) fun h => hother h.2.symm
  · exact iff_of_true (Or.inl rfl) ⟨rfl, (not_not.mp hother).symm⟩

theorem Shows.unsubscribe (hshows : state.Shows subscribed) (symbol : Instrument) :
    ¬MarketDataCall.applyTo subscribed ⟨state.symbol, '2'⟩ symbol := by
  rw [MarketDataCall.applyTo]
  split_ifs with hother
  · exact fun h => hother ((hshows symbol).mp h).2.symm
  · rintro (h | h)
    · cases h
    · exact h.2 rfl

theorem not_applyTo_unsubscribe (hnone : ∀ symbol, ¬subscribed symbol) (name : Message)
    (symbol : Instrument) : ¬MarketDataCall.applyTo subscribed ⟨name, '2'⟩ symbol := by
  rw [MarketDataCall.applyTo]
  split_ifs with hother
  · exact hnone symbol
  · rintro (h | h)
    · cases h
    · exact hnone symbol h.1

end MarketDataState

/-! ## A frame -/

namespace ConnectionPanel

open MarketDataState

variable {state : MarketDataState} {sessionState : FixClientState}
  {subscribed : Instrument → Prop} {chosen : Option Instrument} {pressed : Bool}

/-- The panel tells the truth afterwards, or is stale. -/
def Leaves (stale : Prop) (subscribed : Instrument → Prop)
    (r : MarketDataState × List MarketDataCall) : Prop :=
  (¬stale → r.1.Shows (r.2.foldl MarketDataCall.applyTo subscribed)) ∧
    (stale → r.1.Stale (r.2.foldl MarketDataCall.applyTo subscribed))

theorem leaves_choose (hshows : state.Shows subscribed) (symbol : Instrument) :
    Leaves (state.status = .subscribed ∧ state.symbol = symbol.name) subscribed
      (choose state .active symbol) := by
  by_cases hstatus : state.status = .subscribed
  · have hchoose : choose state .active symbol =
        (state.selectSymbol symbol.name, [⟨state.symbol, '2'⟩]) := by
      rw [choose, if_pos ⟨hstatus, rfl⟩]
    rw [hchoose, selectSymbol_name]
    split_ifs with hsame
    · exact ⟨fun hnot => (hnot ⟨hstatus, hsame⟩).elim, fun _ => ⟨hstatus, hshows.unsubscribe⟩⟩
    · exact ⟨fun _ => shows_of_none nofun hshows.unsubscribe, fun h => (hsame h.2).elim⟩
  · have hchoose : choose state .active symbol = (state.selectSymbol symbol.name, []) := by
      rw [choose, if_neg fun h => hstatus h.1]
    rw [hchoose, selectSymbol_name]
    split_ifs with hsame
    · exact ⟨fun _ => hshows, fun h => (hstatus h.1).elim⟩
    · exact ⟨fun _ => shows_of_none hstatus (hshows.none hstatus), fun h => (hstatus h.1).elim⟩

theorem leaves_press (hshows : state.Shows subscribed) :
    Leaves (state.status = .subscribed) subscribed (press state .active) := by
  rw [press]
  split_ifs with hstatus hcan hactive
  · rw [markSessionReady_of_subscribed hstatus]
    exact ⟨fun hnot => (hnot hstatus).elim, fun _ => ⟨hstatus, hshows.unsubscribe⟩⟩
  · contradiction
  · exact ⟨fun _ => hshows.subscribe hstatus, fun h => (hstatus h).elim⟩
  · simp [canSubscribe, hstatus] at hactive

theorem stale_press (h : state.Stale subscribed) :
    (press state .active).1.Stale ((press state .active).2.foldl MarketDataCall.applyTo
      subscribed) := by
  rw [press, if_pos h.1, if_pos rfl, markSessionReady_of_subscribed h.1]
  exact ⟨h.1, not_applyTo_unsubscribe h.2 state.symbol⟩

/-- The panel goes on telling the truth unless the user repeats a request. -/
theorem leaves_marketData (hshows : state.Shows subscribed) :
    Leaves (state.Repeats chosen pressed) subscribed (marketData state .active chosen pressed) := by
  have hready : state.markSessionReady.Shows subscribed := shows_markSessionReady.mpr hshows
  rw [marketData, if_neg (by decide)]
  cases chosen with
  | none =>
      rw [Repeats, Option.elim_none, Option.elim_none]
      dsimp only
      by_cases hpressed : pressed = true
      · obtain ⟨hkept, hstale⟩ := leaves_press hready
        rw [markSessionReady_status] at hkept hstale
        rw [if_pos hpressed, and_iff_left hpressed]
        exact ⟨hkept, hstale⟩
      · rw [if_neg hpressed]
        exact ⟨fun _ => hready, fun h => (hpressed h.2).elim⟩
  | some symbol =>
      obtain ⟨hkept, hstale⟩ := leaves_choose hready symbol
      rw [markSessionReady_status, markSessionReady_symbol] at hkept hstale
      rw [Repeats, Option.elim_some, Option.elim_some]
      dsimp only
      by_cases hpressed : pressed = true
      · rw [if_pos hpressed, Leaves, List.foldl_append]
        refine ⟨fun hnot => (leaves_press (hkept hnot)).1 fun hagain => hnot ?_,
          fun hrepeats => stale_press (hstale hrepeats)⟩
        have hbefore := selectSymbol_subscribed hagain
        rwa [markSessionReady_status, markSessionReady_symbol] at hbefore
      · rw [if_neg hpressed, List.append_nil]
        exact ⟨hkept, hstale⟩

theorem plain_of_eq {calls : List MarketDataCall} (hnamed : state.Named) {type : Char}
    (htype : type = '1' ∨ type = '2') (hcalls : ∀ call ∈ calls, call = ⟨state.symbol, type⟩) :
    ∀ call ∈ calls, call.Plain :=
  fun call hcall => hcalls call hcall ▸ ⟨hnamed, htype⟩

theorem plain_choose (hnamed : state.Named) (symbol : Instrument) :
    (choose state sessionState symbol).1.Named ∧
      ∀ call ∈ (choose state sessionState symbol).2, call.Plain := by
  refine ⟨hnamed.selectSymbol symbol, plain_of_eq hnamed (Or.inr rfl) fun call hcall => ?_⟩
  rw [choose] at hcall
  split_ifs at hcall
  · exact List.mem_singleton.mp hcall
  · cases hcall

theorem plain_press (hnamed : state.Named) :
    (press state sessionState).1.Named ∧ ∀ call ∈ (press state sessionState).2, call.Plain := by
  rw [press]
  split_ifs with hstatus hactive
  · rw [markSessionReady_of_subscribed hstatus]
    exact ⟨hnamed, plain_of_eq hnamed (Or.inr rfl) fun call => List.mem_singleton.mp⟩
  · rw [markSessionReady_of_subscribed hstatus]
    exact ⟨hnamed, nofun⟩
  · exact ⟨hnamed, plain_of_eq hnamed (Or.inl rfl) fun call => List.mem_singleton.mp⟩
  · exact ⟨hnamed, nofun⟩

theorem named_ready (hnamed : state.Named) :
    (if sessionState = .disconnected ∨ sessionState = .connecting then
      state.markDisconnected else state.markSessionReady).Named := by
  split
  · exact hnamed
  · rwa [Named, markSessionReady_symbol]

/-- Every call is about an instrument, and subscribes or unsubscribes. -/
theorem plain_marketData (hnamed : state.Named) :
    (marketData state sessionState chosen pressed).1.Named ∧
      ∀ call ∈ (marketData state sessionState chosen pressed).2, call.Plain := by
  have hchosen : ∀ state : MarketDataState, state.Named →
      (chosen.elim (state, []) (choose state sessionState)).1.Named ∧
        ∀ call ∈ (chosen.elim (state, []) (choose state sessionState)).2, call.Plain := by
    intro state hnamed
    cases chosen with
    | none => exact ⟨hnamed, nofun⟩
    | some symbol => exact plain_choose hnamed symbol
  have hpressed : ∀ state : MarketDataState, state.Named →
      (if pressed then press state sessionState else (state, [])).1.Named ∧
        ∀ call ∈ (if pressed then press state sessionState else (state, [])).2, call.Plain := by
    intro state hnamed
    split
    · exact plain_press hnamed
    · exact ⟨hnamed, nofun⟩
  obtain ⟨hfirst, hcalls⟩ := hchosen _ (named_ready hnamed)
  obtain ⟨hsecond, hcalls'⟩ := hpressed _ hfirst
  refine ⟨hsecond, fun call hcall => ?_⟩
  rcases List.mem_append.mp hcall with hcall | hcall
  · exact hcalls call hcall
  · exact hcalls' call hcall

/-- Without an active session there is no call, and the panel shows no more than before. -/
theorem marketData_idle (h : sessionState ≠ .active) :
    (marketData state sessionState chosen pressed).2 = [] ∧
      ((marketData state sessionState chosen pressed).1.status = .subscribed →
        state.status = .subscribed ∧ sessionState ≠ .disconnected ∧
          sessionState ≠ .connecting) := by
  have hready : (if sessionState = .disconnected ∨ sessionState = .connecting then
      state.markDisconnected else state.markSessionReady).status = .subscribed →
      state.status = .subscribed ∧ sessionState ≠ .disconnected ∧ sessionState ≠ .connecting := by
    split_ifs with hdown
    · exact nofun
    · exact fun hstatus => ⟨(markSessionReady_status state).mp hstatus, not_or.mp hdown⟩
  have hchosen : ∀ state : MarketDataState,
      (chosen.elim (state, []) (choose state sessionState)).2 = [] ∧
        ((chosen.elim (state, []) (choose state sessionState)).1.status = .subscribed →
          state.status = .subscribed) := by
    intro state
    cases chosen with
    | none => exact ⟨rfl, id⟩
    | some symbol =>
        exact ⟨if_neg fun hand => h hand.2, fun hagain => (selectSymbol_subscribed hagain).1⟩
  have hpressed : ∀ state : MarketDataState,
      (if pressed then press state sessionState else (state, [])).2 = [] ∧
        ((if pressed then press state sessionState else (state, [])).1.status = .subscribed →
          state.status = .subscribed) := by
    intro state
    have hcan : ¬state.canSubscribe sessionState = true := by simp [canSubscribe, h]
    split
    · rw [press, if_neg h, if_neg hcan]
      split_ifs with hstatus
      · exact ⟨rfl, fun _ => hstatus⟩
      · exact ⟨rfl, id⟩
    · exact ⟨rfl, id⟩
  obtain ⟨hnone, hkept⟩ := hchosen (if sessionState = .disconnected ∨ sessionState = .connecting
    then state.markDisconnected else state.markSessionReady)
  obtain ⟨hnone', hkept'⟩ := hpressed (chosen.elim ((if sessionState = .disconnected ∨
    sessionState = .connecting then state.markDisconnected else state.markSessionReady), [])
      (choose _ sessionState)).1
  refine ⟨?_, fun hagain => hready (hkept (hkept' hagain))⟩
  exact List.append_eq_nil_iff.mpr ⟨hnone, hnone'⟩

/-- While the session is active, the panel comes to show a subscription by asking for it,
and asks for no other. -/
theorem marketData_subscribes (state : MarketDataState) (chosen : Option Instrument)
    (pressed : Bool) :
    (∀ call ∈ (marketData state .active chosen pressed).2, call.subscriptionRequestType = '1' →
      call.symbol = (marketData state .active chosen pressed).1.symbol ∧
        (marketData state .active chosen pressed).1.status = .subscribed) ∧
    ((marketData state .active chosen pressed).1.status = .subscribed →
      ⟨(marketData state .active chosen pressed).1.symbol, '1'⟩ ∈
        (marketData state .active chosen pressed).2 ∨
      state.status = .subscribed ∧
        (marketData state .active chosen pressed).1.symbol = state.symbol) := by
  have hchosen : ∀ state : MarketDataState,
      (∀ call ∈ (chosen.elim (state, []) (choose state .active)).2,
        call.subscriptionRequestType ≠ '1') ∧
      ((chosen.elim (state, []) (choose state .active)).1.status = .subscribed →
        state.status = .subscribed ∧
          (chosen.elim (state, []) (choose state .active)).1.symbol = state.symbol) := by
    intro state
    cases chosen with
    | none => exact ⟨nofun, fun h => ⟨h, rfl⟩⟩
    | some symbol =>
        refine ⟨fun call hcall => ?_, fun h => ?_⟩
        · rw [Option.elim_some, choose] at hcall
          split_ifs at hcall
          · rw [List.mem_singleton.mp hcall]
            exact (by decide : '2' ≠ '1')
          · cases hcall
        · obtain ⟨hstatus, hsame⟩ := selectSymbol_subscribed h
          refine ⟨hstatus, ?_⟩
          rw [Option.elim_some, choose, selectSymbol_name, if_pos hsame]
  obtain ⟨hcalls, hkept⟩ := hchosen state.markSessionReady
  rw [markSessionReady_status, markSessionReady_symbol] at hkept
  rw [marketData, if_neg (by decide)]
  generalize chosen.elim (state.markSessionReady, []) (choose state.markSessionReady .active) = r
    at hcalls hkept
  obtain ⟨state', calls⟩ := r
  dsimp only
  by_cases hpressed : pressed = true
  · rw [if_pos hpressed]
    by_cases hstatus : state'.status = .subscribed
    · rw [press, if_pos hstatus, if_pos rfl, markSessionReady_of_subscribed hstatus]
      refine ⟨fun call hcall htype => ?_, fun _ => Or.inr (hkept hstatus)⟩
      rcases List.mem_append.mp hcall with hcall | hcall
      · exact (hcalls call hcall htype).elim
      · rw [List.mem_singleton.mp hcall] at htype
        cases htype
    · have hcan : state'.canSubscribe .active = true := by simp [canSubscribe, hstatus]
      rw [press, if_neg hstatus, if_pos hcan]
      refine ⟨fun call hcall htype => ?_, fun _ => Or.inl (by simp [markSubscribed])⟩
      rcases List.mem_append.mp hcall with hcall | hcall
      · exact (hcalls call hcall htype).elim
      · rw [List.mem_singleton.mp hcall]
        exact ⟨rfl, rfl⟩
  · rw [if_neg hpressed, List.append_nil]
    exact ⟨fun call hcall htype => (hcalls call hcall htype).elim, fun h => Or.inr (hkept h)⟩

end ConnectionPanel

end BetaTrader
