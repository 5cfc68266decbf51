import BetaTrader.Exchange.Execution
import BetaTrader.Exchange.TradeLedger

/-!
# The risk gate

Every order should pass `RiskManager::preCheck` before it reaches the matcher.
The handler of new orders begins with the check; the handler of modifies never
makes it, so a replaced order passes the gate only if its new price and quantity
happen to be acceptable.
-/

namespace BetaTrader

variable {P : Type}

namespace RiskManager

open Matcher

section Check

variable [FinitePrice P] {manager : OrderManager P} {order : Order P}

omit [FinitePrice P] in
theorem levelHasSender_spec {level : PriceLevel} (h : Live manager level)
    (senderCompID : String) :
    ∃ found, levelHasSender manager senderCompID level = some found ∧
      (found = true ↔ ∃ resting ∈ restingOrders manager level,
        resting.senderCompID = senderCompID) := by
  induction level with
  | nil => exact ⟨false, rfl, by simp⟩
  | cons ptr level ih =>
      obtain ⟨resting, hresting, _⟩ := h ptr List.mem_cons_self
      obtain ⟨found, hfound, hiff⟩ := ih (h.mono fun p hp => List.mem_cons_of_mem ptr hp)
      rw [restingOrders_cons hresting]
      by_cases hsender : resting.senderCompID = senderCompID
      · exact ⟨true, by simp [levelHasSender, OrderManager.deref, hresting, hsender],
          by simp [hsender]⟩
      · exact ⟨found, by simp [levelHasSender, OrderManager.deref, hresting, hsender, hfound],
          by simp [hsender, hiff]⟩

omit [FinitePrice P] in
/-- Where the walk stops as the matcher does, it finds an order of the same sender exactly
among the orders that the matcher would reach. -/
theorem checkForSelfMatch_of_stops [PriceArith P] {map : PriceMap P}
    (h : Live manager (Levels.queue map))
    (hstops : ∀ l ∈ map, order.orderType = .limit ∧ ¬crosses order l.1 ↔ breaks order l.1) :
    ∃ found, checkForSelfMatch manager order map = some found ∧
      (found = true ↔ ∃ resting ∈ crossingOrders manager order map,
        resting.senderCompID = order.senderCompID) := by
  induction map with
  | nil => exact ⟨false, rfl, by simp [crossingOrders, crossingLevels]⟩
  | cons l map ih =>
      obtain ⟨hstop, hstops⟩ := List.forall_mem_cons.mp hstops
      have hlevel : Live manager l.2 := h.mono fun ptr hptr => by simp [hptr]
      obtain ⟨found, hfound, hiff⟩ := levelHasSender_spec hlevel order.senderCompID
      obtain ⟨rest, hrest, hiffRest⟩ := ih (h.mono fun ptr hptr => by simp [hptr]) hstops
      by_cases hbreaks : breaks order l.1
      · refine ⟨false, ?_, by simp [crossingOrders, crossingLevels_cons_of_breaks hbreaks]⟩
        simp [checkForSelfMatch, hstop.mpr hbreaks]
      · have hcrossing : crossingOrders manager order (l :: map) =
            restingOrders manager l.2 ++ crossingOrders manager order map := by
          rw [crossingOrders, crossingLevels_cons hbreaks, Levels.queue_cons,
            restingOrders_append]
          rfl
        rw [hcrossing]
        simp only [List.mem_append, or_and_right, exists_or, ← hiff, ← hiffRest]
        cases found with
        | true => exact ⟨true, by simp [checkForSelfMatch, hstop, hbreaks, hfound], by simp⟩
        | false =>
            exact ⟨rest, by simp [checkForSelfMatch, hstop, hbreaks, hfound, hrest], by simp⟩

/-- A limit order reaches exactly the levels at which the matcher does not break
off. -/
theorem crosses_iff (hlimit : order.orderType = .limit) (price : P) :
    crosses order price ↔ ¬breaks order price := by
  cases hside : order.side <;>
    simp [crosses, breaks, OrderSide.before, OrderSide.opposite, hlimit, hside]

theorem checkForSelfMatch_spec {map : PriceMap P} (h : Live manager (Levels.queue map)) :
    ∃ found, checkForSelfMatch manager order map = some found ∧
      (found = true ↔ ∃ resting ∈ crossingOrders manager order map,
        resting.senderCompID = order.senderCompID) := by
  apply checkForSelfMatch_of_stops h
  intro l _
  constructor
  · rintro ⟨hlimit, hnot⟩
    exact not_not.mp (mt (crosses_iff hlimit l.1).mpr hnot)
  · exact fun hbreaks =>
      ⟨hbreaks.1, fun hcrosses => (crosses_iff hbreaks.1 l.1).mp hcrosses hbreaks⟩

/-- What the check comes down to in a book without dangling pointers. -/
theorem preCheck_iff {orderBook : OrderBook P}
    (h : Live manager (Levels.queue (orderBook.sideMap order.side.opposite))) :
    preCheck manager order orderBook = some true ↔
      ¬hasInvalidQuantityOrPrice order ∧ ¬deviatesTooMuch order orderBook ∧
        ∀ resting ∈ crossingOrders manager order (orderBook.sideMap order.side.opposite),
          resting.senderCompID ≠ order.senderCompID := by
  obtain ⟨found, hfound, hiff⟩ : ∃ found, checkForSelfMatch manager order
      (orderBook.sideMap order.side.opposite) = some found ∧ _ := checkForSelfMatch_spec h
  have hnone : (∀ resting ∈ crossingOrders manager order
      (orderBook.sideMap order.side.opposite), resting.senderCompID ≠ order.senderCompID) ↔
        found = false := by
    rw [← Bool.not_eq_true, hiff]
    simp
  rw [preCheck, hfound, hnone]
  split_ifs with hinvalid hdeviates
  · simp [hinvalid]
  · simp [hdeviates]
  · simp [hinvalid, hdeviates]

end Check

end RiskManager

namespace Partition

open Matcher

/-! ## The calls of the matcher -/

section Calls

variable [PriceArith P]

/-- The partition in which a handler calls `Matcher::match`, and the pointer it
passes; `none` when the handler makes no call. -/
def matchCall (clock : Clock) (s : Partition P) : Command P → Option (Partition P × OrderPtr)
  | .newOrder cmd => do
      let passed ← RiskManager.preCheck s.orderManager cmd.order s.orderBook
      if !passed then none
      else
        let (true, manager) := s.orderManager.addOrder cmd.order
          | none
        let s := s.withManager manager
        let s := s.enqueue (.saveOrder cmd.order)
        return (s.publish (.execution cmd.order "NEW"), cmd.order.coreOrderId)
  | .cancelOrder _ => none
  | .modifyOrder cmd => do
      let _ ← s.orderManager.getOrderById cmd.orderId
      let (_, s) ← s.cancelInBook clock cmd.orderId
      let s := s.enqueue (.removeOrder cmd.orderId)
      let manager ← s.orderManager.modify cmd.orderId fun order =>
        ((order.setPrice cmd.newPrice).setOriginalQuantity cmd.newQuantity).setStatus .new
      let s := s.withManager manager
      let order ← s.orderManager.deref cmd.orderId
      let s := s.enqueue (.saveOrder order)
      return (s.publish (.execution order "REPLACED"), cmd.orderId)

/-- What a handler does with the partition and the trades that the match
returns. -/
def resume (s : Partition P) (trades : List (Trade P)) : Command P → Option (Partition P)
  | .newOrder cmd => do
      let s ← s.bookTrades postTradeUpdate trades
      let s ← if cmd.order.orderType = .limit then s.insertIfOpen cmd.order.coreOrderId else some s
      return if cmd.order.orderType = .market ∧
          s.orderManager.containsOrderById cmd.order.coreOrderId then
        s.retire cmd.order.coreOrderId
      else s
  | .cancelOrder _ => some s
  | .modifyOrder cmd => do
      let s ← s.bookTrades (fun s _ => s) trades
      let s ← s.insertIfOpen cmd.orderId
      match s.orderManager.getOrderById cmd.orderId with
      | none => return s
      | some order =>
          return if order.remainingQuantity = 0 then s.retire cmd.orderId else s

/-- The handlers reach the matcher through `matchCall`. -/
theorem processCommand_of_matchCall {clock : Clock} {s t : Partition P} {cmd : Command P}
    {ptr : OrderPtr} (h : matchCall clock s cmd = some (t, ptr)) :
    processCommand clock s cmd =
      (t.matchOrder clock ptr).bind fun result => result.1.resume result.2 cmd := by
  cases cmd with
  | newOrder c =>
      simp only [matchCall, Option.bind_eq_bind, Option.bind_eq_some_iff] at h
      obtain ⟨passed, hpassed, h⟩ := h
      cases passed with
      | false => simp at h
      | true =>
          cases hadd : s.orderManager.addOrder c.order with
          | mk added manager =>
              cases added with
              | false => simp [hadd] at h
              | true =>
                  simp only [hadd, Bool.not_true, Bool.false_eq_true, if_false, pure,
                    Option.some.injEq, Prod.mk.injEq] at h
                  obtain ⟨rfl, rfl⟩ := h
                  simp only [processCommand, processNewOrder, hpassed, hadd,
                    Option.bind_eq_bind, Option.bind_some]
                  rfl
  | cancelOrder c => simp [matchCall] at h
  | modifyOrder c =>
      simp only [matchCall, Option.bind_eq_bind, Option.bind_eq_some_iff] at h
      obtain ⟨old, hold, ⟨cancelled, s₁⟩, hcancel, manager, hmanager, order, horder, h⟩ := h
      obtain ⟨rfl, rfl⟩ := Prod.mk.inj (Option.some.inj h)
      simp only [processCommand, processModifyOrder, hold, hcancel, hmanager, horder,
        Option.bind_eq_bind, Option.bind_some]
      rfl

/-- The order behind the pointer passes the check against the book it is about
to be matched with. -/
def GatePassed (t : Partition P) (ptr : OrderPtr) : Prop :=
  ∃ order, t.orderManager.deref ptr = some order ∧
    RiskManager.preCheck t.orderManager order t.orderBook = some true

/-- If the command calls the matcher, it does so through the gate. -/
def Gated (clock : Clock) (s : Partition P) (cmd : Command P) : Prop :=
  ∀ t ptr, matchCall clock s cmd = some (t, ptr) → t.GatePassed ptr

end Calls

/-! ## One command -/

/-- What a modify of a registered order has to ask for to pass the check that is
not made: a quantity, a price near the other side, and no order of the same
sender in reach. -/
def AsksSafely [PriceArith P] (s : Partition P) : Command P → Prop
  | .modifyOrder c => ∀ old, s.orderManager.orderMap c.orderId = some old →
      0 < c.newQuantity ∧ 0 < c.newPrice ∧
        ¬RiskManager.deviatesTooMuch (c.applyTo old) s.orderBook ∧
        ∀ resting ∈ s.crossing (c.applyTo old), resting.senderCompID ≠ old.senderCompID
  | _ => True

section Step

variable [FinitePrice P] {ids : List OrderID} {s s' : Partition P} {order : Order P}
  {cmd : Command P} {clock : Clock}

/-- The calls of the matcher are the ones the specification of the commands
speaks of. -/
theorem matchCall_eq (hinv : s.Invariant ids) (hcmd : Admissible ids cmd) (clock : Clock) :
    matchCall clock s cmd = (s.incomingOrder cmd).map fun order =>
      (s.prepared clock order cmd, order.coreOrderId) := by
  cases cmd with
  | newOrder c =>
      by_cases hpass : RiskManager.preCheck s.orderManager c.order s.orderBook = some true
      · have hincoming : s.incomingOrder (.newOrder c) = some c.order := by
          simp [incomingOrder, hpass]
        obtain ⟨_, heq, _, _, hfree, _⟩ | ⟨_, _, heq, _⟩ :=
          incomingOrder_cases hinv.sound hcmd hincoming
        · rw [hincoming]
          simp [matchCall, hpass, OrderManager.addOrder_eq hfree, prepared, publish, enqueue,
            emit, withManager]
        · cases heq
      · have hincoming : s.incomingOrder (.newOrder c) = none := by simp [incomingOrder, hpass]
        rw [hincoming]
        cases hresult : RiskManager.preCheck s.orderManager c.order s.orderBook with
        | none => simp [matchCall, hresult]
        | some passed =>
            cases passed with
            | true => exact (hpass hresult).elim
            | false => simp [matchCall, hresult]
  | cancelOrder c => rfl
  | modifyOrder c =>
      cases hold : s.orderManager.orderMap c.orderId with
      | none => simp [matchCall, incomingOrder, OrderManager.getOrderById, hold]
      | some old =>
          obtain ⟨hid, _⟩ := hinv.managed _ old hold
          have hold' : ((s.cancelled clock c.orderId).enqueue
              (.removeOrder c.orderId)).orderManager.orderMap c.orderId = some old := hold
          have hcall : (c.applyTo old).coreOrderId = c.orderId := hid
          simp only [matchCall, incomingOrder, OrderManager.getOrderById, hold,
            cancelInBook_eq hinv.book.sound, OrderManager.modify_eq hold', Option.bind_eq_bind,
            Option.bind_some, Option.map_some, hcall]
          simp [OrderManager.deref, withManager, prepared, publish, enqueue, emit, cancelled,
            hid, ModifyOrder.applyTo]

theorem crossing_eq (s : Partition P) (order : Order P) : s.crossing order =
    crossingOrders s.orderManager order (s.orderBook.sideMap order.side.opposite) := rfl

/-- The check at the call of the matcher, in terms of the partition before the
command. -/
theorem preCheck_prepared (hinv : s.Invariant ids) (hcmd : Admissible ids cmd)
    (h : s.incomingOrder cmd = some order) (clock : Clock) :
    RiskManager.preCheck (s.prepared clock order cmd).orderManager order
        (s.prepared clock order cmd).orderBook = some true ↔
      ¬RiskManager.hasInvalidQuantityOrPrice order ∧
        ¬RiskManager.deviatesTooMuch order s.orderBook ∧
        ∀ resting ∈ s.crossing order, resting.senderCompID ≠ order.senderCompID := by
  have hother : (s.prepared clock order cmd).orderBook.sideMap order.side.opposite =
      s.orderBook.sideMap order.side.opposite := prepared_otherSide hinv.sound hcmd h clock
  have hsound : BookSound (s.prepared clock order cmd).orderManager
      (s.prepared clock order cmd).orderBook := prepared_book hinv.sound hcmd h
  have hlive := (hsound order.side.opposite).live
  rw [RiskManager.preCheck_iff hlive, ← crossing_eq, prepared_crossing hinv.sound hcmd h]
  simp only [RiskManager.deviatesTooMuch, RiskManager.topOfBookPrice, hother]

theorem gated_iff_incoming (hinv : s.Invariant ids) (hcmd : Admissible ids cmd) :
    Gated clock s cmd ↔ ∀ order, s.incomingOrder cmd = some order →
      ¬RiskManager.hasInvalidQuantityOrPrice order ∧
        ¬RiskManager.deviatesTooMuch order s.orderBook ∧
        ∀ resting ∈ s.crossing order, resting.senderCompID ≠ order.senderCompID := by
  rw [Gated, matchCall_eq hinv hcmd]
  constructor
  · intro hgate order h
    obtain ⟨order', horder', hpass⟩ := hgate _ _ (congrArg (Option.map _) h)
    have hsame : order' = order := Option.some.inj
      (horder'.symm.trans (prepared_matchable clock hinv.sound hcmd h).incoming_mem)
    exact (preCheck_prepared hinv hcmd h clock).mp (hsame ▸ hpass)
  · intro hsafe t ptr hcall
    obtain ⟨order, h, heq⟩ := Option.map_eq_some_iff.mp hcall
    obtain ⟨rfl, rfl⟩ := Prod.mk.inj heq
    exact ⟨order, (prepared_matchable clock hinv.sound hcmd h).incoming_mem,
      (preCheck_prepared hinv hcmd h clock).mpr (hsafe order h)⟩

/-- The gate holds for a new order anyway, and for a modify if it asks for what
would have passed. -/
theorem gated_iff (hinv : s.Invariant ids) (hcmd : Admissible ids cmd) :
    Gated clock s cmd ↔ s.AsksSafely cmd := by
  rw [gated_iff_incoming hinv hcmd]
  cases cmd with
  | newOrder c =>
      refine iff_of_true (fun order h => ?_) trivial
      simp only [incomingOrder, Option.ite_none_right_eq_some, Option.some.injEq] at h
      obtain ⟨hpass, rfl⟩ := h
      exact (RiskManager.preCheck_iff (hinv.book _).sound.live).mp hpass
  | cancelOrder c => exact iff_of_true (fun _ h => by simp [incomingOrder] at h) trivial
  | modifyOrder c =>
      have hvalid {old : Order P} (hlimit : old.orderType = .limit) :
          ¬RiskManager.hasInvalidQuantityOrPrice (c.applyTo old) ↔
            0 < c.newQuantity ∧ 0 < c.newPrice := by
        rw [RiskManager.hasInvalidQuantityOrPrice, not_or, not_and]
        exact and_congr UInt64.not_le ⟨fun h => not_le.mp (h hlimit), fun h _ => not_le.mpr h⟩
      have hincoming (order : Order P) : s.incomingOrder (.modifyOrder c) = some order ↔
          ∃ old, s.orderManager.orderMap c.orderId = some old ∧ c.applyTo old = order :=
        Option.map_eq_some_iff
      constructor
      · intro h old hold
        obtain ⟨hok, hrest⟩ := h _ ((hincoming _).mpr ⟨old, hold, rfl⟩)
        obtain ⟨hquantity, hprice⟩ := (hvalid (hinv.managed _ old hold).2.1).mp hok
        exact ⟨hquantity, hprice, hrest⟩
      · intro h order horder
        obtain ⟨old, hold, rfl⟩ := (hincoming order).mp horder
        obtain ⟨hquantity, hprice, hrest⟩ := h old hold
        exact ⟨(hvalid (hinv.managed _ old hold).2.1).mpr ⟨hquantity, hprice⟩, hrest⟩

/-! ## What the gate keeps out -/

/-- Trades have two senders, and no order without a quantity or, for a limit
order, without a positive price has ever been admitted. -/
structure RiskSafe (s : Partition P) : Prop where
  senders : ∀ trade ∈ s.matchedTrades, ∃ buy sell,
    s.orderManager.lastSeen trade.buyOrderId = some buy ∧
      s.orderManager.lastSeen trade.sellOrderId = some sell ∧
      buy.senderCompID ≠ sell.senderCompID
  valid : ∀ id order, s.orderManager.lastSeen id = some order →
    ¬RiskManager.hasInvalidQuantityOrPrice order

theorem riskSafe_init (symbol : Instrument) (currentId : TradeID) :
    (init symbol currentId : Partition P).RiskSafe := by
  constructor
  · simp [init, matchedTrades]
  · simp [init, OrderManager.lastSeen]

/-- A command that changes neither the trades nor what is seen of the orders. -/
theorem RiskSafe.congr (h : s.RiskSafe) (htrades : s'.matchedTrades = s.matchedTrades)
    (hseen : ∀ id, s'.orderManager.lastSeen id = s.orderManager.lastSeen id) : s'.RiskSafe := by
  constructor
  · rw [htrades]
    simpa only [hseen] using h.senders
  · simpa only [hseen] using h.valid

/-- An order that has been seen keeps its sender. -/
theorem sender_step (hinv : s.Invariant ids) (hcmd : Admissible ids cmd) (hseen : s.Seen ids)
    (h : processCommand clock s cmd = some s') {id : OrderID} {old : Order P}
    (hold : s.orderManager.lastSeen id = some old) :
    ∃ new, s'.orderManager.lastSeen id = some new ∧ new.senderCompID = old.senderCompID := by
  rcases lastSeen_step hinv.sound hcmd h id with
    ⟨order, qty, status, hincoming, rfl, hnew⟩ | ⟨_, qty, status, hmap⟩
  · refine ⟨_, hnew, ?_⟩
    rcases incomingOrder_cases hinv.sound hcmd hincoming with
      ⟨_, _, _, _, _, hfresh, _⟩ | ⟨c, old', _, rfl, _, hold', _⟩
    · exact (hfresh (hseen _ old hold)).elim
    · rw [OrderManager.lastSeen_of_orderMap hold'] at hold
      rw [← Option.some.inj hold]
      rfl
  · rw [hold] at hmap
    exact ⟨_, hmap, rfl⟩

/-- A new trade has the order of the command on one side, and an order that it
reaches on the other. -/
theorem senders_of_mem_tradesOf (hinv : s.Invariant ids) (hcmd : Admissible ids cmd)
    (hseen : s.Seen ids) (h : processCommand clock s cmd = some s')
    (hincoming : s.incomingOrder cmd = some order)
    (hgated : ∀ resting ∈ s.crossing order, resting.senderCompID ≠ order.senderCompID)
    {currentId : TradeID} {tick : ℕ} {trade : Trade P}
    (htrade : trade ∈ tradesOf clock order (s.fills order) currentId tick) :
    ∃ buy sell, s'.orderManager.lastSeen trade.buyOrderId = some buy ∧
      s'.orderManager.lastSeen trade.sellOrderId = some sell ∧
      buy.senderCompID ≠ sell.senderCompID := by
  obtain ⟨f, hf, tradeId, tick', rfl⟩ := mem_tradesOf htrade
  have hne := hgated f.1 (Allocation.mem_queue_of_mem_fills hf)
  obtain ⟨new, hnew, hnewSender⟩ : ∃ new,
      s'.orderManager.lastSeen order.coreOrderId = some new ∧
        new.senderCompID = order.senderCompID := by
    rcases lastSeen_step hinv.sound hcmd h order.coreOrderId with
      ⟨order', qty, status, hincoming', _, hnew⟩ | ⟨hother, _⟩
    · obtain rfl := Option.some.inj (hincoming.symm.trans hincoming')
      exact ⟨_, hnew, rfl⟩
    · exact (hother order hincoming rfl).elim
  obtain ⟨filled, hfilled, hfilledSender⟩ := sender_step hinv hcmd hseen h
    (OrderManager.lastSeen_of_orderMap (mem_fills hinv.sound hcmd hincoming hf).1)
  by_cases hside : order.side = .buy
  · refine ⟨new, filled, by simp [tradeOf, hside, hnew], by simp [tradeOf, hside, hfilled], ?_⟩
    rw [hnewSender, hfilledSender]
    exact hne.symm
  · refine ⟨filled, new, by simp [tradeOf, hside, hfilled], by simp [tradeOf, hside, hnew], ?_⟩
    rw [hnewSender, hfilledSender]
    exact hne

/-- A gated command keeps out what the gate is there for. -/
theorem riskSafe_step (hinv : s.Invariant ids) (hcmd : Admissible ids cmd)
    (hseen : s.Seen ids) (hgated : s.AsksSafely cmd) (hsafe : s.RiskSafe)
    (h : processCommand clock s cmd = some s') : s'.RiskSafe := by
  have hgate : Gated clock s cmd := (gated_iff hinv hcmd).mpr hgated
  have hchecked := (gated_iff_incoming hinv hcmd).mp hgate
  have hkeep (trade : Trade P) (htrade : trade ∈ s.matchedTrades) : ∃ buy sell,
      s'.orderManager.lastSeen trade.buyOrderId = some buy ∧
        s'.orderManager.lastSeen trade.sellOrderId = some sell ∧
        buy.senderCompID ≠ sell.senderCompID := by
    obtain ⟨buy, sell, hbuy, hsell, hne⟩ := hsafe.senders trade htrade
    obtain ⟨buy', hbuy', heqBuy⟩ := sender_step hinv hcmd hseen h hbuy
    obtain ⟨sell', hsell', heqSell⟩ := sender_step hinv hcmd hseen h hsell
    exact ⟨buy', sell', hbuy', hsell', by rwa [heqBuy, heqSell]⟩
  constructor
  · intro trade htrade
    rcases trades_step hinv.sound hcmd h with
      ⟨_, _, hsame, _⟩ | ⟨order, hincoming, trades, tick, rfl, _, hmatched, _⟩
    · exact hkeep trade (hsame ▸ htrade)
    · rw [hmatched, List.mem_append] at htrade
      rcases htrade with hold | hnew
      · exact hkeep trade hold
      · exact senders_of_mem_tradesOf hinv hcmd hseen h hincoming
          (hchecked order hincoming).2.2 hnew
  · intro id order' horder'
    rcases lastSeen_step hinv.sound hcmd h id with
      ⟨order, qty, status, hincoming, _, hnew⟩ | ⟨_, qty, status, hmap⟩
    · rw [Option.some.inj (horder'.symm.trans hnew)]
      exact (hchecked order hincoming).1
    · rw [hmap] at horder'
      obtain ⟨old, hold, rfl⟩ := Option.map_eq_some_iff.mp horder'
      exact hsafe.valid id old hold

end Step

/-! ## Runs -/

/-- Every call of the matcher in a run is gated, and what the gate is there for
has not happened after any command. -/
structure GateHeld [FinitePrice P] (clock : Clock) (s : Partition P)
    (commands : List (Command P)) : Prop where
  gated : Meets clock (Gated clock) s commands
  safe : AfterEvery clock RiskSafe s commands

namespace Sample

/-- A buy below a sell of the same sender, which is then raised to its price. -/
def washTrade : List (Command ℚ) :=
  [submit 1 "S1" .sell .limit 3 10, submit 2 "S1" .buy .limit 3 (19 / 2), modify 2 10 3]

end Sample

end Partition

end BetaTrader
