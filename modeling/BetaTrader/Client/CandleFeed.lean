import BetaTrader.Client.CandleAggregator
import BetaTrader.Client.DepthReplica
import BetaTrader.Exchange.TradeLedger

/-!
# What the candles are made of

The aggregator of the candles is fed from the general incremental subscriber.
Only the book publishes there, when an order comes to rest and when it leaves.
What the aggregator takes for trades are thus the orders that come to rest, while
the trades of the matcher never reach it.
-/

namespace BetaTrader

open Matcher

variable {P : Type}

namespace Client

/-- The calls of `onTrade` that the subscriber makes for a refresh. -/
def onTradeCalls (refresh : MarketDataIncrementalRefresh P) : List (TradeTick P) :=
  (refresh.entries.filter fun entry => entry.updateAction ≠ .delete).map fun entry =>
    { symbol := refresh.symbol.name, price := entry.price, qty := entry.size }

end Client

open Client

def Event.onTradeCalls : Event P → List (TradeTick P)
  | .refreshed refresh => Client.onTradeCalls refresh
  | _ => []

/-- A trade as `onTrade` should be told of it. -/
def Trade.tick (trade : Trade P) : TradeTick P where
  symbol := trade.orderSymbol.name
  price := trade.price
  qty := trade.quantity

namespace Partition

def onTradeCalls (s : Partition P) : List (TradeTick P) := s.journal.flatMap Event.onTradeCalls

/-- The aggregator has been told of the trades, and of nothing else. -/
def CandlesAreTrades (s : Partition P) : Prop := s.onTradeCalls = s.matchedTrades.map Trade.tick

instance [DecidableEq P] (s : Partition P) : Decidable s.CandlesAreTrades :=
  inferInstanceAs (Decidable (_ = _))

/-! ## The calls of a command -/

section Events

variable {s : Partition P} {order : Order P} {cmd : Command P} {clock : Clock}

theorem cancelEvents_onTradeCalls (clock : Clock) (id : OrderID) :
    (s.cancelEvents clock id).flatMap Event.onTradeCalls = [] := by
  rw [cancelEvents]
  split_ifs
  · cases s.orderManager.orderMap id <;> rfl
  · rfl

theorem admissionEvents_onTradeCalls (clock : Clock) (order : Order P) (cmd : Command P) :
    (s.admissionEvents clock order cmd).flatMap Event.onTradeCalls = [] := by
  cases cmd with
  | newOrder c => rfl
  | cancelOrder c => rfl
  | modifyOrder c =>
      apply List.flatMap_append.trans
      rw [cancelEvents_onTradeCalls]
      rfl

theorem bookingEvents_onTradeCalls (cmd : Command P) (served : Order P)
    (fs : List (Order P × ℕ)) (trades : List (Trade P)) :
    (bookingEvents (postEvents cmd) served fs trades).flatMap Event.onTradeCalls = [] := by
  have hpost : ∀ trade, (postEvents cmd trade).flatMap Event.onTradeCalls = [] := by
    cases cmd <;> exact fun _ => rfl
  have hfill : ∀ f trade, (fillEvents served f trade).flatMap Event.onTradeCalls = [] := by
    intro f trade
    simp [fillEvents, bookedEvents, Event.onTradeCalls, List.flatMap_map]
  exact flatMap_bookingEvents_eq_nil trades hpost hfill

variable [PriceArith P] {ids : List OrderID} {s' : Partition P}

/-- The call that is made when what is left of an order comes to rest. -/
def restingTick (s : Partition P) (order : Order P) : TradeTick P where
  symbol := s.orderBook.symbol.name
  price := order.price
  qty := (s.served order).remainingQuantity

/-- The call that should be made for a fill. -/
def fillTick (order : Order P) (f : Order P × ℕ) : TradeTick P where
  symbol := order.symbol.name
  price := f.1.price
  qty := UInt64.ofNat f.2

omit [PriceArith P] in
theorem map_tick_tradesOf (clock : Clock) (order : Order P) (fs : List (Order P × ℕ))
    (currentId : TradeID) (tick : ℕ) :
    (tradesOf clock order fs currentId tick).map Trade.tick = fs.map (fillTick order) := by
  induction fs generalizing currentId tick with
  | nil => rfl
  | cons f fs ih =>
      rw [tradesOf, List.map_cons, ih]
      rfl

theorem closingEvents_onTradeCalls (hinv : s.Sound ids) (hcmd : Admissible ids cmd)
    (h : s.incomingOrder cmd = some order) (clock : Clock) :
    ((s.prepared clock order cmd).closingEvents order).flatMap Event.onTradeCalls =
      if s.Remains order then [s.restingTick order] else [] := by
  have hsymbol := prepared_afterMatch_symbol hinv hcmd h clock
  have hprice : (s.served order).price = order.price := served_price
  rw [closingEvents, prepared_served hinv hcmd h]
  simp only [prepared_remains hinv hcmd h]
  split_ifs
  · simp [Event.onTradeCalls, Client.onTradeCalls, OrderBook.refresh, restingTick, hsymbol, hprice]
  · rfl
  · rfl

/-- A command that takes an order to the matcher makes a call for what comes to
rest of it, and any other command none. -/
theorem onTradeCalls_step (hinv : s.Sound ids) (hcmd : Admissible ids cmd)
    (h : processCommand clock s cmd = some s') :
    (s.incomingOrder cmd = none ∧ s'.onTradeCalls = s.onTradeCalls) ∨
    ∃ order, s.incomingOrder cmd = some order ∧
      s'.onTradeCalls = s.onTradeCalls ++
        if s.Remains order then [s.restingTick order] else [] := by
  rcases processCommand_cases hinv hcmd clock with
    ⟨hincoming, _, _, _, _, heq⟩ | ⟨c, _, rfl, _, _, heq⟩ | ⟨order, hincoming, heq⟩
  · obtain rfl := Option.some.inj (heq.symm.trans h)
    exact Or.inl ⟨hincoming, List.flatMap_append.trans (List.append_nil _)⟩
  · obtain rfl := Option.some.inj (heq.symm.trans h)
    refine Or.inl ⟨rfl, ?_⟩
    rw [onTradeCalls, cancelled_journal, List.flatMap_append, List.flatMap_append,
      cancelEvents_onTradeCalls]
    exact List.append_nil _
  · obtain rfl := Option.some.inj (heq.symm.trans h)
    refine Or.inr ⟨order, hincoming, ?_⟩
    rw [onTradeCalls, executed_journal]
    simp only [List.flatMap_append, List.flatMap_cons, admissionEvents_onTradeCalls,
      bookingEvents_onTradeCalls, closingEvents_onTradeCalls hinv hcmd hincoming,
      List.nil_append]
    rfl

end Events

/-! ## Where the calls are the trades -/

section Condition

variable [PriceArith P] {ids : List OrderID} {s s' : Partition P} {order : Order P}
  {cmd : Command P} {clock : Clock}

/-- What comes to rest of the order looks like its only trade: one order is in reach,
at the price of the order and of half its quantity. -/
structure RestsAsTraded (s : Partition P) (order resting : Order P) : Prop where
  crossing : s.crossing order = [resting]
  limit : order.orderType = .limit
  symbol : order.symbol = s.orderBook.symbol
  price : resting.price = order.price
  quantity : order.openQuantity = 2 * resting.openQuantity

/-- An order of the command asks for nothing, or it can neither trade nor rest, or
what rests of it looks like its trade. -/
def FeedsTrades (s : Partition P) (cmd : Command P) : Prop :=
  ∀ order, s.incomingOrder cmd = some order →
    order.openQuantity = 0 ∨ (s.crossing order = [] ∧ order.orderType ≠ .limit) ∨
      ∃ resting, s.RestsAsTraded order resting

/-- An order of which something stays open has been filled by all it reaches. -/
theorem fills_of_remains (h : s.Remains order) :
    s.fills order = (s.crossing order).map fun resting => (resting, resting.openQuantity) := by
  have hopen : (s.served order).openQuantity = _ := served_openQuantity
  have hlt : Allocation.total Order.openQuantity (s.crossing order) < order.openQuantity := by
    have hpos := h.1
    omega
  exact Allocation.fills_of_total_lt hlt

/-- The quantities of the two ticks agree if half the order is traded. -/
theorem qty_restingTick_iff {resting : Order P} (hremains : s.Remains order)
    (hcrossing : s.crossing order = [resting]) :
    (s.restingTick order).qty = (fillTick order (resting, resting.openQuantity)).qty ↔
      order.openQuantity = 2 * resting.openQuantity := by
  have hopen : (s.served order).openQuantity = _ := served_openQuantity
  have hpos := hremains.1
  have hfill : (fillTick order (resting, resting.openQuantity)).qty.toNat =
      resting.openQuantity := UInt64.toNat_ofNat_of_lt' resting.openQuantity_lt
  have hresting : (s.restingTick order).qty.toNat = (s.served order).openQuantity := rfl
  rw [hcrossing, Allocation.total_cons, Allocation.total_nil] at hopen
  rw [← UInt64.toNat_inj, hfill, hresting]
  omega

theorem restingTick_eq_iff {resting : Order P} (hremains : s.Remains order)
    (hcrossing : s.crossing order = [resting]) :
    s.restingTick order = fillTick order (resting, resting.openQuantity) ↔
      s.RestsAsTraded order resting := by
  have hqty := qty_restingTick_iff hremains hcrossing
  constructor
  · intro htick
    have hname : Instrument.fromString s.orderBook.symbol.name =
        Instrument.fromString order.symbol.name :=
      congrArg (fun tick => Instrument.fromString tick.symbol) htick
    rw [Instrument.fromString_name, Instrument.fromString_name] at hname
    exact {
      crossing := hcrossing
      limit := hremains.2
      symbol := (Option.some.inj hname).symm
      price := (congrArg TradeTick.price htick).symm
      quantity := hqty.mp (congrArg TradeTick.qty htick) }
  · intro hrests
    refine TradeTick.ext ?_ hrests.price.symm (hqty.mpr hrests.quantity)
    exact congrArg Instrument.name hrests.symbol.symm

/-- The calls of a command are the trades of its order. -/
theorem calls_eq_fills_iff :
    ((if s.Remains order then [s.restingTick order] else []) =
        (s.fills order).map (fillTick order)) ↔
      order.openQuantity = 0 ∨ (s.crossing order = [] ∧ order.orderType ≠ .limit) ∨
        ∃ resting, s.RestsAsTraded order resting := by
  have hopen : (s.served order).openQuantity = _ := served_openQuantity
  by_cases hremains : s.Remains order
  · have hpos := hremains.1
    rw [if_pos hremains, fills_of_remains hremains, List.map_map]
    constructor
    · intro h
      obtain ⟨resting, hcrossing, htick⟩ := List.map_eq_singleton_iff.mp h.symm
      refine Or.inr (Or.inr ⟨resting, ?_⟩)
      exact (restingTick_eq_iff hremains hcrossing).mp htick.symm
    · rintro (hzero | ⟨_, hmarket⟩ | ⟨resting, hrests⟩)
      · omega
      · exact (hmarket hremains.2).elim
      · rw [hrests.crossing, (restingTick_eq_iff hremains hrests.crossing).mpr hrests]
        rfl
  · have hnil : s.fills order = [] ↔ order.openQuantity = 0 ∨ s.crossing order = [] :=
      Allocation.fills_eq_nil_iff
    rw [if_neg hremains, eq_comm, List.map_eq_nil_iff, hnil]
    rw [Remains, not_and_or] at hremains
    refine or_congr_right' fun hpos => ?_
    constructor
    · intro hcrossing
      rw [hcrossing, Allocation.total_nil] at hopen
      exact Or.inl ⟨hcrossing, hremains.resolve_left (by omega)⟩
    · rintro (⟨hcrossing, _⟩ | ⟨resting, hrests⟩)
      · exact hcrossing
      · have hquantity := hrests.quantity
        rw [hrests.crossing, Allocation.total_cons, Allocation.total_nil] at hopen
        exact (hremains.resolve_left (by omega) hrests.limit).elim

/-- A command keeps the candles to the trades exactly when it meets the condition. -/
theorem candlesAreTrades_step (hinv : s.Sound ids) (hcmd : Admissible ids cmd)
    (h : processCommand clock s cmd = some s') (hs : s.CandlesAreTrades) :
    s'.CandlesAreTrades ↔ s.FeedsTrades cmd := by
  rw [CandlesAreTrades] at hs
  rcases onTradeCalls_step hinv hcmd h with
    ⟨hincoming, hcalls⟩ | ⟨order, hincoming, hcalls⟩
  · rcases trades_step hinv hcmd h with ⟨_, _, htrades, _⟩ | ⟨order, hother, _⟩
    · refine iff_of_true ?_ fun order horder => ?_
      · rw [CandlesAreTrades, hcalls, htrades]
        exact hs
      · cases hincoming.symm.trans horder
    · cases hincoming.symm.trans hother
  · rcases trades_step hinv hcmd h with ⟨hother, _⟩ | ⟨order', hother, _, _, rfl, _, htrades, _⟩
    · cases hincoming.symm.trans hother
    · obtain rfl := Option.some.inj (hincoming.symm.trans hother)
      rw [CandlesAreTrades, hcalls, htrades, List.map_append, map_tick_tradesOf, hs,
        List.append_cancel_left_eq, calls_eq_fills_iff]
      constructor
      · intro hcond order' horder'
        obtain rfl := Option.some.inj (hincoming.symm.trans horder')
        exact hcond
      · exact fun hfeeds => hfeeds order hincoming

end Condition

/-! ## Runs -/

section Runs

variable [PriceArith P] {commands : List (Command P)}

/-- Along a run the candles are made of the trades exactly if no command brings an
order to rest, except one of which half is traded against a single order at its own
price. -/
theorem candles_are_trades_iff (h : Valid commands) (clock : Clock) (symbol : Instrument)
    (currentId : TradeID) :
    ∃ s, processAll clock (init symbol currentId) commands = some s ∧
      (PartialRun.Always (processCommand clock) CandlesAreTrades (init symbol currentId)
          commands ↔
        PartialRun.Follows (processCommand clock) (fun _ => FeedsTrades) []
          (init symbol currentId) commands) := by
  refine PartialRun.always_iff_follows (fun history s => s.Sound (newIds history))
    (fun history s cmd hs hcmd => ?_) (sound_init symbol currentId) rfl (h.follows clock _)
  obtain ⟨t, ht, hsound⟩ := processCommand_sound hs hcmd clock
  rw [← newIds_concat] at hsound
  exact ⟨t, ht, hsound, candlesAreTrades_step hs hcmd ht⟩

end Runs

theorem candles_are_trades_iff_sample :
    ∃ s, processAll (fun _ => 0) (init .eurusd 0) Sample.commands = some s ∧
      (PartialRun.Always (processCommand fun _ => 0) CandlesAreTrades (init .eurusd 0)
          Sample.commands ↔
        PartialRun.Follows (processCommand fun _ => 0) (fun _ => FeedsTrades) []
          (init .eurusd 0) Sample.commands) :=
  candles_are_trades_iff Sample.valid_commands (fun _ => 0) .eurusd 0

/-- One limit order that rests is a trade for the aggregator. -/
theorem resting_order_in_candle :
    Valid [Sample.submit 1 "S1" .buy .limit 3 10] ∧
      ∃ s, processAll (fun _ => 0) (init .eurusd 0) [Sample.submit 1 "S1" .buy .limit 3 10] =
        some s ∧ ¬s.CandlesAreTrades := by
  refine ⟨by decide, ?_⟩
  have hrun : (processAll (fun _ => 0) (init .eurusd 0)
      [Sample.submit 1 "S1" .buy .limit 3 10]).map
        (fun s => (s.onTradeCalls, s.matchedTrades.map Trade.tick)) =
      some ([⟨"EURUSD".toList, 10, 3⟩], []) := by
    decide +kernel
  obtain ⟨s, hs, heq⟩ := Option.map_eq_some_iff.mp hrun
  obtain ⟨hcalls, htrades⟩ := Prod.mk.inj heq
  refine ⟨s, hs, ?_⟩
  rw [CandlesAreTrades, hcalls, htrades]
  exact List.cons_ne_nil _ _

end Partition

end BetaTrader
