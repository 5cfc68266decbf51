import BetaTrader.Exchange.Execution
import BetaTrader.Exchange.FixSession
import BetaTrader.Exchange.TradeLedger
import Mathlib.Data.List.TakeWhile

/-!
# Limit prices from the wire

A price that comes over the wire may be NaN, and NaN passes the risk check, the
test that ends the matching loop and the comparison of the price map.  As long
as no such price comes in, an order trades within its limit, and what is left of
it rests in the level of its price.
-/

namespace BetaTrader

/-- A command that enters an order over the wire, or cancels one. -/
inductive Command.FromWire : Command Double → Prop where
  | newOrder {fixMessage : Message} {request : OrderRequest} (sessionId : ConnectionID)
      (coreOrderId : OrderID) (now : Timestamp)
      (h : BinaryToOrderRequestConverter.convert fixMessage = some request) :
      FromWire (.newOrder (request.newOrder sessionId coreOrderId now))
  | cancelOrder (cmd : CancelOrder) : FromWire (.cancelOrder cmd)

/-- The command brings no NaN in. -/
def Command.IsNumeric : Command Double → Prop
  | .newOrder cmd => cmd.order.price ≠ .nan
  | _ => True

/-- The price is no worse than the limit of the order. -/
def Order.NoWorse (order : Order Double) (price : Double) : Prop :=
  match order.side with
  | .buy => price ≤ order.price
  | .sell => order.price ≤ price

theorem Command.FromWire.supported {cmd : Command Double} (h : cmd.FromWire) :
    cmd.Supported := by
  cases h with
  | newOrder => exact Or.inl rfl
  | cancelOrder => trivial

namespace Partition

open Matcher

/-- What the limit of a new order promises of the step from `s` to `s'` that
executes it. -/
structure LimitProtected (s s' : Partition Double) (order : Order Double) : Prop where
  trades : ∃ trades, s'.matchedTrades = s.matchedTrades ++ trades ∧
    (∀ trade ∈ trades, order.NoWorse trade.price) ∧
    ((trades.map fun trade => trade.quantity.toNat).sum < order.originalQuantity.toNat →
      ∃ rest, s'.orderManager.orderMap order.coreOrderId = some rest ∧
        rest.openQuantity + (trades.map fun trade => trade.quantity.toNat).sum =
          order.originalQuantity.toNat ∧
        ∃ l ∈ s'.orderBook.sideMap order.side, l.1 = order.price ∧ order.coreOrderId ∈ l.2)
  only : ∀ side, ∀ l ∈ s'.orderBook.sideMap side, order.coreOrderId ∈ l.2 →
    side = order.side ∧ l.1 = order.price

/-- Orders rest at the prices of their levels, which are numbers. -/
structure BookKeyed (manager : OrderManager Double) (book : OrderBook Double) : Prop where
  priced : ∀ side, Levels.All (PricedAt manager) (book.sideMap side)
  numeric : ∀ side, ∀ l ∈ book.sideMap side, l.1 ≠ .nan

section Book

variable {manager manager' : OrderManager Double} {book : OrderBook Double} {order : Order Double}

/-- The orders of the book may change in everything but their prices. -/
theorem BookKeyed.congr (h : BookKeyed manager book)
    (hsame : ∀ ptr, book.Contains ptr → ∀ order', manager'.orderMap ptr = some order' →
      ∃ old, manager.orderMap ptr = some old ∧ order'.price = old.price) :
    BookKeyed manager' book where
  priced := by
    intro side
    refine (h.priced side).mono fun price ptr hptr hpriced order' horder' => ?_
    obtain ⟨old, hold, hprice⟩ := hsame ptr (OrderBook.contains_iff.mpr ⟨side, hptr⟩) order' horder'
    rw [hprice, hpriced old hold]
  numeric := h.numeric

theorem BookKeyed.without (h : BookKeyed manager book) (id : OrderID) :
    BookKeyed manager (book.without id) where
  priced := by
    intro side
    rw [OrderBook.sideMap_without]
    exact Levels.all_prune (h.priced side)
  numeric := by
    intro side l hl
    rw [OrderBook.sideMap_without] at hl
    obtain ⟨m, hm, _, rfl⟩ := Levels.mem_prune.mp hl
    exact h.numeric side m hm

theorem BookKeyed.afterMatch (h : BookKeyed manager book) (order : Order Double) :
    BookKeyed manager (book.afterMatch manager order) where
  priced := by
    intro side
    rw [OrderBook.afterMatch, OrderBook.sideMap_setSideMap]
    split_ifs with hside
    · exact Levels.all_prune (h.priced _)
    · exact h.priced side
  numeric := by
    intro side l hl
    rw [OrderBook.afterMatch, OrderBook.sideMap_setSideMap] at hl
    split_ifs at hl with hside
    · obtain ⟨m, hm, _, rfl⟩ := Levels.mem_prune.mp hl
      exact h.numeric _ m hm
    · exact h.numeric side l hl

/-- Prices that are numbers and do not stand before each other are equal. -/
theorem OrderSide.eq_of_not_before {side : OrderSide} {a b : Double} (ha : a ≠ .nan)
    (hb : b ≠ .nan) (hab : ¬side.before a b) (hba : ¬side.before b a) : a = b := by
  cases side with
  | buy => exact Double.eq_of_not_lt ha hb hba hab
  | sell => exact Double.eq_of_not_lt ha hb hab hba

theorem BookKeyed.push (h : BookKeyed manager book)
    (horder : manager.orderMap order.coreOrderId = some order) (hprice : order.price ≠ .nan) :
    BookKeyed manager (book.push order) where
  priced := by
    intro side
    rw [OrderBook.push, OrderBook.sideMap_setSideMap]
    split_ifs with hside
    · refine Levels.all_pushBack_of_eq _ _ _ (fun l hl hlt hgt => ?_) (h.priced _)
        fun order' horder' => ?_
      · exact OrderSide.eq_of_not_before (h.numeric _ l hl) hprice hlt hgt
      · rw [← Option.some.inj (horder.symm.trans horder')]
    · exact h.priced side
  numeric := by
    intro side l hl
    rw [OrderBook.push, OrderBook.sideMap_setSideMap] at hl
    split_ifs at hl with hside
    · rcases Levels.key_pushBack _ _ _ hl with hkey | ⟨m, hm, hkey⟩
      · exact hkey ▸ hprice
      · exact hkey ▸ h.numeric _ m hm
    · exact h.numeric side l hl

/-- A limit order reaches only levels within its limit. -/
theorem noWorse_of_not_breaks {price : Double} (hlimit : order.orderType = .limit)
    (horder : order.price ≠ .nan) (hprice : price ≠ .nan) (h : ¬breaks order price) :
    order.NoWorse price := by
  have hnot : ¬order.side.opposite.before order.price price := fun hbefore => h ⟨hlimit, hbefore⟩
  rw [Order.NoWorse]
  cases hside : order.side with
  | buy =>
      rw [hside] at hnot
      exact Double.le_of_not_lt horder hprice hnot
  | sell =>
      rw [hside] at hnot
      exact Double.le_of_not_lt hprice horder hnot

/-- The price of a fill is the price of a level that the order reaches. -/
theorem BookKeyed.noWorse_fill (h : BookKeyed manager book)
    (hmatchable : Matchable manager order (book.sideMap order.side.opposite))
    (hlimit : order.orderType = .limit) (hprice : order.price ≠ .nan) {f : Order Double × ℕ}
    (hf : f ∈ fillsOn manager order (book.sideMap order.side.opposite)) :
    order.NoWorse f.1.price := by
  obtain ⟨hget, hqueue, _⟩ := mem_fillsOn hmatchable hf
  obtain ⟨l, hl, hptr⟩ := Levels.mem_queue.mp hqueue
  have hmem := (List.takeWhile_prefix _).subset hl
  have hreached := List.mem_takeWhile_imp hl
  rw [h.priced _ l hmem _ hptr f.1 hget]
  exact noWorse_of_not_breaks hlimit hprice (h.numeric _ l hmem) (by simpa using hreached)

end Book

section Step

variable {ids : List OrderID} {s s' : Partition Double} {order : Order Double}
  {cmd : Command Double} {clock : Clock}

/-- What the steps of a command are given and what they keep. -/
def Keyed (s : Partition Double) : Prop := BookKeyed s.orderManager s.orderBook

theorem Keyed.prepared (hkeyed : s.Keyed) (hinv : s.Sound ids) (hcmd : Admissible ids cmd)
    (h : s.incomingOrder cmd = some order) (clock : Clock) :
    (s.prepared clock order cmd).Keyed := by
  rw [Keyed, prepared_orderManager h, prepared_orderBook hinv hcmd h]
  refine (BookKeyed.without hkeyed order.coreOrderId).congr fun ptr hptr order' horder' => ?_
  rw [OrderManager.write_orderMap_of_ne _ _ (OrderBook.contains_without.mp hptr).1] at horder'
  exact ⟨order', horder', rfl⟩

theorem Keyed.afterAll (hkeyed : s.Keyed) (h : Entered ids s order) (hprice : order.price ≠ .nan) :
    (s.afterAll clock order cmd).Keyed := by
  have hmatched : BookKeyed (s.afterAll clock order cmd).orderManager
      (s.orderBook.afterMatch s.orderManager order) := by
    refine (BookKeyed.afterMatch hkeyed order).congr fun ptr hptr order' horder' => ?_
    rw [h.afterAll_orderMap hptr] at horder'
    have hne : ptr ≠ order.coreOrderId := fun heq =>
      h.notMem (heq ▸ OrderBook.contains_afterMatch hptr)
    exact Matcher.matched_price h.matchable hne horder'
  rw [Keyed, afterAll_orderBook]
  split_ifs with hremains
  · refine hmatched.push (h.afterAll_served hremains) ?_
    rw [served_price]
    exact hprice
  · exact hmatched

theorem keyed_step (hinv : s.Sound ids) (hcmd : Admissible ids cmd) (hkeyed : s.Keyed)
    (hprice : ∀ order, s.incomingOrder cmd = some order → order.price ≠ .nan)
    (h : processCommand clock s cmd = some s') : s'.Keyed := by
  rcases processCommand_cases hinv hcmd clock with
    ⟨_, _, _, _, _, heq⟩ | ⟨c, _, rfl, _, _, heq⟩ | ⟨order, hincoming, heq⟩
  · obtain rfl := Option.some.inj (heq.symm.trans h)
    exact hkeyed
  · obtain rfl := Option.some.inj (heq.symm.trans h)
    refine (BookKeyed.without hkeyed c.orderId).congr fun ptr _ order' horder' => ?_
    exact ⟨order', (OrderManager.orderMap_of_removeOrderById horder').2, rfl⟩
  · obtain rfl := Option.some.inj (heq.symm.trans h)
    exact (hkeyed.prepared hinv hcmd hincoming clock).afterAll
      (hinv.prepared hcmd hincoming clock) (hprice order hincoming)

theorem numeric_incoming (hwire : cmd.FromWire) (hnumeric : cmd.IsNumeric)
    (h : s.incomingOrder cmd = some order) : order.price ≠ .nan := by
  cases hwire with
  | newOrder =>
      simp only [incomingOrder, Option.ite_none_right_eq_some, Option.some.injEq] at h
      exact h.2 ▸ hnumeric
  | cancelOrder => simp [incomingOrder] at h

/-- One new order, in a book that is keyed by numbers. -/
theorem limitProtected_step (hinv : s.Sound ids) (hcmd : Admissible ids cmd) (hkeyed : s.Keyed)
    (hincoming : s.incomingOrder cmd = some order) (hlimit : order.orderType = .limit)
    (hprice : order.price ≠ .nan) (h : processCommand clock s cmd = some s') :
    LimitProtected s s' order := by
  have hkeyed' : s'.Keyed := by
    refine keyed_step hinv hcmd hkeyed (fun order' horder' => ?_) h
    rwa [← Option.some.inj (hincoming.symm.trans horder')]
  obtain ⟨t, ht, hsound⟩ := processCommand_sound hinv hcmd clock
  obtain rfl := Option.some.inj (ht.symm.trans h)
  obtain ⟨_, horder, trades, tick, htrades, _, hmatched, _⟩ :=
    (trades_step hinv hcmd h).resolve_left fun hnone => by simp [hincoming] at hnone
  obtain rfl := Option.some.inj (hincoming.symm.trans horder)
  have hexecuted : t = s.executed clock order cmd := by
    rcases processCommand_cases hinv hcmd clock with
      ⟨hnone, _⟩ | ⟨_, _, rfl, _⟩ | ⟨order', hincoming', heq⟩
    · simp [hincoming] at hnone
    · simp [incomingOrder] at hincoming
    · obtain rfl := Option.some.inj (hincoming.symm.trans hincoming')
      exact Option.some.inj (ht.symm.trans heq)
  have hget : t.orderManager.orderMap order.coreOrderId =
      if s.Remains order then some (s.served order) else none := by
    rw [hexecuted]
    exact executed_incoming hinv hcmd hincoming clock
  obtain ⟨qty, status, hserved⟩ := s.served_set order
  -- wherever the order rests, it is what the match has left of it
  have hplace : ∀ side, ∀ l ∈ t.orderBook.sideMap side, order.coreOrderId ∈ l.2 →
      side = order.side ∧ l.1 = order.price := by
    intro side l hl hid
    obtain ⟨rest, hrest, _, hside, _⟩ :=
      (hsound.book side).rests _ (Levels.mem_queue.mpr ⟨l, hl, hid⟩)
    have hlevel := hkeyed'.priced side l hl _ hid rest hrest
    rw [hget] at hrest
    split_ifs at hrest
    rw [← Option.some.inj hrest, hserved] at hside hlevel
    exact ⟨hside.symm, hlevel.symm⟩
  refine ⟨⟨trades, hmatched, fun trade htrade => ?_, fun hless => ?_⟩, hplace⟩
  · rw [htrades] at htrade
    obtain ⟨f, hf, tradeId, tick', rfl⟩ := mem_tradesOf htrade
    have hprepared := hinv.prepared hcmd hincoming clock
    rw [← prepared_fills hinv hcmd hincoming clock] at hf
    exact BookKeyed.noWorse_fill (hkeyed.prepared hinv hcmd hincoming clock) hprepared.matchable
      hlimit hprice hf
  · have hsum : (trades.map fun trade => trade.quantity.toNat).sum =
        ((s.fills order).map Prod.snd).sum := by
      rw [htrades]
      exact sum_tradesOf clock order (fun f hf => (mem_fills hinv hcmd hincoming hf).2.2.2) _ _
    have htotal := sum_fills_served hincoming
    have horiginal : (s.served order).originalQuantity = order.originalQuantity := by
      rw [hserved]
      rfl
    rw [horiginal] at htotal
    have hremains : s.Remains order := ⟨by omega, hlimit⟩
    rw [if_pos hremains] at hget
    have hcontains : t.orderBook.Contains order.coreOrderId := by
      rw [hexecuted, executed_contains hinv hcmd hincoming clock, if_pos rfl]
      exact hremains
    obtain ⟨side, hqueue⟩ := OrderBook.contains_iff.mp hcontains
    obtain ⟨l, hl, hid⟩ := Levels.mem_queue.mp hqueue
    obtain ⟨rfl, hkey⟩ := hplace side l hl hid
    exact ⟨_, hget, by omega, l, hl, hkey, hid⟩

/-! ## Runs -/

theorem keyed_init (symbol : Instrument) (currentId : TradeID) :
    (init symbol currentId : Partition Double).Keyed where
  priced side := by
    rw [init, OrderBook.empty_sideMap]
    exact Levels.all_nil
  numeric side l hl := by
    rw [init, OrderBook.empty_sideMap] at hl
    exact (List.not_mem_nil hl).elim

/-- A run without NaN is defined, and leaves a book that is keyed by numbers. -/
theorem processAll_keyed {commands : List (Command Double)} (hvalid : Valid commands)
    (hwire : ∀ cmd ∈ commands, cmd.FromWire) (hnumeric : ∀ cmd ∈ commands, cmd.IsNumeric)
    (clock : Clock) (symbol : Instrument) (currentId : TradeID) :
    ∃ s, processAll clock (init symbol currentId) commands = some s ∧
      s.Sound (newIds commands) ∧ s.Keyed := by
  have hfollows : PartialRun.Follows (processCommand clock) (fun history _ cmd =>
      Admissible (newIds history) cmd ∧ cmd.FromWire ∧ cmd.IsNumeric) []
        (init symbol currentId) commands := by
    refine PartialRun.follows_of_history fun pre cmd post hcommands => ?_
    have hmem : cmd ∈ commands := by simp [hcommands]
    exact ⟨(hcommands ▸ hvalid).admissible, hwire cmd hmem, hnumeric cmd hmem⟩
  refine PartialRun.run_induction (fun history (s : Partition Double) =>
    s.Sound (newIds history) ∧ s.Keyed) (fun history s cmd hs hcmd => ?_) ?_ hfollows
  · obtain ⟨hcmd, hwire, hnumeric⟩ := hcmd
    obtain ⟨s', hs', hsound⟩ := processCommand_sound hs.1 hcmd clock
    rw [← newIds_concat] at hsound
    exact ⟨s', hs', hsound, keyed_step hs.1 hcmd hs.2
      (fun _ => numeric_incoming hwire hnumeric) hs'⟩
  · exact ⟨sound_init symbol currentId, keyed_init symbol currentId⟩

/-- In a run without NaN the limits of the new orders are kept. -/
theorem limit_protected {commands : List (Command Double)} {cmd : NewOrder Double}
    (hnodup : (newIds (commands ++ [.newOrder cmd])).Nodup)
    (hwire : ∀ c ∈ commands ++ [.newOrder cmd], c.FromWire)
    (hnumeric : ∀ c ∈ commands ++ [.newOrder cmd], c.IsNumeric)
    (clock : Clock) (symbol : Instrument) (currentId : TradeID) :
    ∃ s s', processAll clock (init symbol currentId) commands = some s ∧
      processCommand clock s (.newOrder cmd) = some s' ∧
      (RiskManager.preCheck s.orderManager cmd.order s.orderBook = some true →
        LimitProtected s s' cmd.order) := by
  have hvalid : Valid (commands ++ [.newOrder cmd]) :=
    ⟨hnodup, fun c hc => (hwire c hc).supported⟩
  obtain ⟨s, hs, hsound, hkeyed⟩ := processAll_keyed hvalid.of_append
    (fun c hc => hwire c (List.mem_append_left _ hc))
    (fun c hc => hnumeric c (List.mem_append_left _ hc)) clock symbol currentId
  have hcmd := hvalid.admissible
  obtain ⟨s', hs', _⟩ := processCommand_sound hsound hcmd clock
  refine ⟨s, s', hs, hs', fun hpre => ?_⟩
  have hincoming : s.incomingOrder (.newOrder cmd) = some cmd.order := by
    simp [incomingOrder, hpre]
  have hlimit : cmd.order.orderType = .limit := by
    cases hwire _ (List.mem_append_right _ (List.mem_singleton.mpr rfl)) with
    | newOrder => rfl
  exact limitProtected_step hsound hcmd hkeyed hincoming hlimit
    (hnumeric (.newOrder cmd) (by simp)) hs'

end Step

/-! ## Sample messages -/

namespace Sample

/-- A NewOrderSingle about EURUSD. -/
def newOrderSingle (sender clOrdID side quantity price : String) : Message :=
  OutboundMessageBuilder.buildMessage sender.toList "BETA_EXCHANGE".toList 1 ['D']
    (Text.close soh [FixUtils.field 11 clOrdID.toList, FixUtils.field 55 "EURUSD".toList,
      FixUtils.field 54 side.toList, FixUtils.field 38 quantity.toList,
      FixUtils.field 40 ['2'], FixUtils.field 44 price.toList]) 0

def request (sender clOrdID : String) (side : OrderSide) (quantity : Quantity) (price : Double) :
    OrderRequest :=
  { senderCompID := sender, clientOrderId := clOrdID, symbol := .eurusd, side := side,
    quantity := quantity, price := price }

def wireSell : NewOrder Double := (request "S1" "A" .sell 5 (.finite 10)).newOrder 1 1 0

def wireBuy : NewOrder Double := (request "B1" "B" .buy 3 (.finite 10)).newOrder 2 2 0

/-- The price is the text `nan`. -/
def wireNan : NewOrder Double := (request "B1" "B" .buy 3 .nan).newOrder 2 2 0

theorem fromWire_sell : Command.FromWire (.newOrder wireSell) :=
  have h : BinaryToOrderRequestConverter.convert (newOrderSingle "S1" "A" "2" "5" "10") =
      some (request "S1" "A" .sell 5 (.finite 10)) := by decide +kernel
  .newOrder 1 1 0 h

theorem fromWire_buy : Command.FromWire (.newOrder wireBuy) :=
  have h : BinaryToOrderRequestConverter.convert (newOrderSingle "B1" "B" "1" "3" "10") =
      some (request "B1" "B" .buy 3 (.finite 10)) := by decide +kernel
  .newOrder 2 2 0 h

theorem fromWire_nan : Command.FromWire (.newOrder wireNan) :=
  have h : BinaryToOrderRequestConverter.convert (newOrderSingle "B1" "B" "1" "3" "nan") =
      some (request "B1" "B" .buy 3 .nan) := by decide +kernel
  .newOrder 2 2 0 h

end Sample

theorem limit_protected_sample :
    ∃ s s', processAll (fun _ => 0) (init .eurusd 0) [.newOrder Sample.wireSell] = some s ∧
      processCommand (fun _ => 0) s (.newOrder Sample.wireBuy) = some s' ∧
      (RiskManager.preCheck s.orderManager Sample.wireBuy.order s.orderBook = some true →
        LimitProtected s s' Sample.wireBuy.order) := by
  have hwire : ∀ c ∈ [.newOrder Sample.wireSell] ++ [.newOrder Sample.wireBuy],
      Command.FromWire c := by
    simp only [List.cons_append, List.nil_append, List.forall_mem_cons]
    exact ⟨Sample.fromWire_sell, Sample.fromWire_buy, by simp⟩
  have hnumeric : ∀ c ∈ [.newOrder Sample.wireSell] ++ [.newOrder Sample.wireBuy],
      Command.IsNumeric c := by
    simp only [List.cons_append, List.nil_append, List.forall_mem_cons]
    refine ⟨?_, ?_, by simp⟩ <;> exact fun h => by cases h
  exact limit_protected (by decide) hwire hnumeric (fun _ => 0) .eurusd 0

/-- A buy at NaN passes the risk check and takes a sell at 10. -/
theorem nan_buy_trades :
    (newIds [.newOrder Sample.wireSell, .newOrder Sample.wireNan]).Nodup ∧
    Command.FromWire (.newOrder Sample.wireSell) ∧
    Command.FromWire (.newOrder Sample.wireNan) ∧
    ∃ s s', processAll (fun _ => 0) (init .eurusd 0) [.newOrder Sample.wireSell] = some s ∧
      processCommand (fun _ => 0) s (.newOrder Sample.wireNan) = some s' ∧
      RiskManager.preCheck s.orderManager Sample.wireNan.order s.orderBook = some true ∧
      ¬LimitProtected s s' Sample.wireNan.order := by
  refine ⟨by decide, Sample.fromWire_sell, Sample.fromWire_nan, ?_⟩
  have hrun : (processAll (fun _ => 0) (init .eurusd 0) [.newOrder Sample.wireSell]).bind
      (fun s => (processCommand (fun _ => 0) s (.newOrder Sample.wireNan)).map fun s' =>
        (RiskManager.preCheck s.orderManager Sample.wireNan.order s.orderBook,
          s.matchedTrades.length, s'.matchedTrades.map Trade.price)) =
      some (some true, 0, [.finite 10]) := by
    decide +kernel
  obtain ⟨s, hs, hstep⟩ := Option.bind_eq_some_iff.mp hrun
  obtain ⟨s', hs', heq⟩ := Option.map_eq_some_iff.mp hstep
  simp only [Prod.mk.injEq, List.length_eq_zero_iff] at heq
  obtain ⟨hpre, hnone, hprices⟩ := heq
  refine ⟨s, s', hs, hs', hpre, fun hprotected => ?_⟩
  obtain ⟨trades, htrades, hlimit, _⟩ := hprotected.trades
  rw [hnone, List.nil_append] at htrades
  obtain ⟨trade, htrade, hprice⟩ := List.map_eq_singleton_iff.mp (htrades ▸ hprices)
  have hworse : trade.price ≤ Double.nan := hlimit trade (by simp [htrade])
  rw [hprice] at hworse
  exact absurd hworse (by decide)

end Partition

end BetaTrader
