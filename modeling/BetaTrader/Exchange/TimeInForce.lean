import BetaTrader.Exchange.Execution
import BetaTrader.Exchange.TradeLedger

/-!
# Time in force

An `IOC` order should leave nothing behind and a `FOK` order should trade its
whole quantity or nothing.  The handler of new orders never reads the field, so
both promises are kept only when the other side of the book happens to offer
enough.
-/

namespace BetaTrader

variable {P : Type}

namespace Partition

open Matcher

/-- What a new order's time in force promises about the command that processes
it. -/
structure TimeInForceHonoured (s s' : Partition P) (order : Order P) : Prop where
  ioc : order.timeInForce = .ioc → order.orderType = .limit ∨ order.orderType = .market →
    ¬s'.orderBook.Contains order.coreOrderId ∧
      s'.orderManager.containsOrderById order.coreOrderId = false
  fok : order.timeInForce = .fok → ∃ trades, s'.matchedTrades = s.matchedTrades ++ trades ∧
    ((trades.map fun trade => trade.quantity.toNat).sum = order.originalQuantity.toNat ∨
      trades = [] ∧ s'.orderBook = s.orderBook)

section Condition

variable [LT P] [DecidableLT P]

/-- What the orders that `order` reaches have open together. -/
def offered (s : Partition P) (order : Order P) : ℕ :=
  Allocation.total Order.openQuantity (s.crossing order)

/-- The other side offers what the time in force calls for: the whole quantity,
or nothing at all for a market order that may not be filled in part. -/
def OffersEnough (s : Partition P) (order : Order P) : Prop :=
  (order.timeInForce = .ioc → order.orderType = .limit →
    order.originalQuantity.toNat ≤ s.offered order) ∧
  (order.timeInForce = .fok → order.originalQuantity.toNat ≤ s.offered order ∨
    order.orderType = .market ∧ s.offered order = 0)

instance (s : Partition P) (order : Order P) : Decidable (s.OffersEnough order) :=
  inferInstanceAs (Decidable (_ ∧ _))

end Condition

/-- Trades carry the amounts of their fills. -/
theorem sum_quantity_tradesOf (clock : Clock) (incoming : Order P) {fs : List (Order P × ℕ)}
    (h : ∀ f ∈ fs, f.2 ≤ f.1.openQuantity) (currentId : TradeID) (tick : ℕ) :
    ((tradesOf clock incoming fs currentId tick).map fun trade => trade.quantity.toNat).sum =
      (fs.map Prod.snd).sum := by
  induction fs generalizing currentId tick with
  | nil => rfl
  | cons f fs ih =>
      have hle := h f List.mem_cons_self
      have hlt := f.1.openQuantity_lt
      have hquantity : (tradeOf clock incoming f.1 f.2 (currentId + 1) tick).quantity.toNat =
          f.2 := UInt64.toNat_ofNat_of_lt' (by rw [UInt64.size]; omega)
      rw [tradesOf, List.map_cons, List.sum_cons, List.map_cons, List.sum_cons, hquantity,
        ih fun g hg => h g (List.mem_cons_of_mem f hg)]

section Step

variable [FinitePrice P] {ids : List OrderID} {s : Partition P} {c : NewOrder P} {clock : Clock}

omit [FinitePrice P] in
/-- The whole quantity of a new order is open when it reaches the matcher. -/
theorem openQuantity_newOrder (c : NewOrder P) :
    c.order.openQuantity = c.order.originalQuantity.toNat :=
  congrArg UInt64.toNat c.isNew.1

theorem crossing_eq_nil (hinv : s.Invariant ids) {order : Order P} (h : s.offered order = 0) :
    s.crossing order = [] := by
  by_contra hne
  have hlive : Live s.orderManager (Levels.queue (crossingLevels order (s.otherSide order))) :=
    (hinv.book _).sound.live.mono fun _ => mem_queue_of_mem_crossing
  have hpos := Allocation.total_pos hlive.openQuantity_pos hne
  rw [offered] at h
  exact hpos.ne' h

/-- A new order comes to rest if it is a limit order that asks for more than is
offered. -/
theorem remains_newOrder : s.Remains c.order ↔
    s.offered c.order < c.order.originalQuantity.toNat ∧ c.order.orderType = .limit := by
  have hopen : (s.served c.order).openQuantity = _ := served_openQuantity
  rw [Remains, hopen, openQuantity_newOrder, offered]
  exact and_congr_left fun _ => by omega

theorem sum_quantity_newOrder (hinv : s.Invariant ids) (hcmd : Admissible ids (.newOrder c))
    (h : s.incomingOrder (.newOrder c) = some c.order) (clock : Clock) (tick : ℕ) :
    ((tradesOf clock c.order (s.fills c.order) s.currentId tick).map
        fun trade => trade.quantity.toNat).sum =
      min c.order.originalQuantity.toNat (s.offered c.order) := by
  rw [sum_quantity_tradesOf clock c.order fun f hf => (mem_fills hinv.sound hcmd h hf).2.2.2,
    ← openQuantity_newOrder]
  exact Allocation.sum_fills _ _

/-- Without an offer a market order leaves the book as it is, while a limit order
is added to it. -/
theorem executed_orderBook_eq_iff (hinv : s.Invariant ids)
    (hcmd : Admissible ids (.newOrder c)) (h : s.incomingOrder (.newOrder c) = some c.order)
    (hnone : s.offered c.order = 0) (hpos : 0 < c.order.originalQuantity.toNat) :
    (s.executed clock c.order (.newOrder c)).orderBook = s.orderBook ↔
      c.order.orderType = .market := by
  have hfresh : ¬s.orderBook.Contains c.order.coreOrderId := by
    intro hmem
    obtain ⟨order, horder, _⟩ := hinv.book.sound.contains_orderMap hmem
    exact hcmd.1 _ (List.mem_singleton.mpr rfl) (hinv.managed _ order horder).2.2
  have hcontains : (s.executed clock c.order (.newOrder c)).orderBook.Contains
      c.order.coreOrderId ↔ _ := executed_contains hinv.sound hcmd h clock
  rw [if_pos rfl, remains_newOrder] at hcontains
  constructor
  · intro heq
    rw [heq] at hcontains
    exact hcmd.2.resolve_left fun hlimit => hfresh (hcontains.mpr ⟨by omega, hlimit⟩)
  · intro hmarket
    have hnot : ¬(s.prepared clock c.order (.newOrder c)).Remains c.order := by
      rw [prepared_remains hinv.sound hcmd h, remains_newOrder, hmarket]
      exact fun hremains => OrderType.noConfusion hremains.2
    have hsame := prepared_crossing hinv.sound hcmd h clock
    rw [crossing_eq_nil hinv hnone] at hsame
    have hmap := mapAfter_of_crossing_nil (hinv.prepared hcmd h clock).matchable.noEmpty hsame
    have hbook : (s.executed clock c.order (.newOrder c)).orderBook = _ := afterAll_orderBook
    rw [hbook, if_neg hnot, OrderBook.afterMatch]
    exact (congrArg _ hmap).trans (OrderBook.setSideMap_sideMap_self _ _)

/-- A limit order is left out of the book and the manager exactly when it is
offered its whole quantity; a market order always is. -/
theorem executed_gone_iff (hinv : s.Invariant ids) (hcmd : Admissible ids (.newOrder c))
    (h : s.incomingOrder (.newOrder c) = some c.order) :
    (¬(s.executed clock c.order (.newOrder c)).orderBook.Contains c.order.coreOrderId ∧
      (s.executed clock c.order (.newOrder c)).orderManager.containsOrderById
        c.order.coreOrderId = false) ↔
      (c.order.orderType = .limit → c.order.originalQuantity.toNat ≤ s.offered c.order) := by
  have hcontains : (s.executed clock c.order (.newOrder c)).orderBook.Contains
      c.order.coreOrderId ↔ _ := executed_contains hinv.sound hcmd h clock
  rw [if_pos rfl] at hcontains
  have hmanager : (s.executed clock c.order (.newOrder c)).orderManager.containsOrderById
      c.order.coreOrderId = false ↔ ¬s.Remains c.order := by
    rw [OrderManager.containsOrderById, executed_incoming hinv.sound hcmd h clock]
    split_ifs with hremains <;> simp [hremains]
  rw [hcontains, hmanager, and_self, remains_newOrder]
  constructor
  · intro hnot hlimit
    by_contra hlt
    exact hnot ⟨by omega, hlimit⟩
  · intro hle hremains
    have hle := hle hremains.2
    omega

/-- The order trades its whole quantity, or there is no trade and no change of
the book, exactly when the whole quantity is offered or nothing is offered to a
market order. -/
theorem executed_allOrNone_iff (hinv : s.Invariant ids) (hcmd : Admissible ids (.newOrder c))
    (h : s.incomingOrder (.newOrder c) = some c.order) :
    (∃ trades, (s.executed clock c.order (.newOrder c)).matchedTrades =
      s.matchedTrades ++ trades ∧
        ((trades.map fun trade => trade.quantity.toNat).sum = c.order.originalQuantity.toNat ∨
          trades = [] ∧ (s.executed clock c.order (.newOrder c)).orderBook = s.orderBook)) ↔
      (c.order.originalQuantity.toNat ≤ s.offered c.order ∨
        c.order.orderType = .market ∧ s.offered c.order = 0) := by
  have hpos : 0 < c.order.originalQuantity.toNat := by
    simp only [incomingOrder, Option.ite_none_right_eq_some] at h
    exact Quantity.pos_iff.mp (RiskManager.originalQuantity_pos_of_preCheck h.1)
  have hprocess : processNewOrder clock c s = some (s.executed clock c.order (.newOrder c)) :=
    processNewOrder_eq hinv.sound hcmd h
  obtain ⟨order, hincoming, trades, tick, htrades, _, hmatched, _⟩ :=
    (trades_step hinv.sound hcmd hprocess).resolve_left
      fun hnone => by simp [h] at hnone
  obtain rfl := Option.some.inj (h.symm.trans hincoming)
  have hsum := sum_quantity_newOrder hinv hcmd h clock tick
  rw [← htrades] at hsum
  constructor
  · rintro ⟨trades', heq, hall⟩
    obtain rfl := List.append_cancel_left (heq.symm.trans hmatched)
    rcases hall with hall | ⟨hnil, hbook⟩
    · exact Or.inl (by omega)
    · rw [hnil, List.map_nil, List.sum_nil] at hsum
      have hnone : s.offered c.order = 0 := by omega
      exact Or.inr ⟨(executed_orderBook_eq_iff hinv hcmd h hnone hpos).mp hbook, hnone⟩
  · rintro (hle | ⟨hmarket, hnone⟩)
    · exact ⟨trades, hmatched, Or.inl (by omega)⟩
    · have hfills : s.fills c.order = [] :=
        Allocation.fills_eq_nil_iff.mpr (Or.inr (crossing_eq_nil hinv hnone))
      refine ⟨trades, hmatched, Or.inr ⟨by rw [htrades, hfills, tradesOf], ?_⟩⟩
      exact (executed_orderBook_eq_iff hinv hcmd h hnone hpos).mpr hmarket

/-- A new order's time in force is honoured exactly when enough is offered. -/
theorem honoured_executed_iff (hinv : s.Invariant ids) (hcmd : Admissible ids (.newOrder c))
    (h : s.incomingOrder (.newOrder c) = some c.order) :
    TimeInForceHonoured s (s.executed clock c.order (.newOrder c)) c.order ↔
      s.OffersEnough c.order := by
  constructor
  · rintro ⟨hioc, hfok⟩
    refine ⟨fun htif hlimit => ?_, fun htif => ?_⟩
    · exact (executed_gone_iff hinv hcmd h).mp (hioc htif (Or.inl hlimit)) hlimit
    · exact (executed_allOrNone_iff hinv hcmd h).mp (hfok htif)
  · rintro ⟨hioc, hfok⟩
    refine ⟨fun htif _ => ?_, fun htif => ?_⟩
    · exact (executed_gone_iff hinv hcmd h).mpr (hioc htif)
    · exact (executed_allOrNone_iff hinv hcmd h).mpr (hfok htif)

end Step

/-- After every run, and for every new order that passes the risk check, the time
in force is honoured exactly when the other side of the book offers enough. -/
theorem timeInForce_honoured_iff [FinitePrice P] {commands : List (Command P)}
    {c : NewOrder P} (h : Valid (commands ++ [.newOrder c])) (clock : Clock)
    (symbol : Instrument) (currentId : TradeID) :
    ∃ s, processAll clock (init symbol currentId) commands = some s ∧
      (RiskManager.preCheck s.orderManager c.order s.orderBook = some true →
        ∃ s', processNewOrder clock c s = some s' ∧
          (TimeInForceHonoured s s' c.order ↔ s.OffersEnough c.order)) := by
  obtain ⟨s, hs, hinv⟩ := processAll_invariant h.of_append clock symbol currentId
  refine ⟨s, hs, fun hpass => ?_⟩
  have hincoming : s.incomingOrder (.newOrder c) = some c.order := by
    simp [incomingOrder, hpass]
  exact ⟨_, processNewOrder_eq hinv.sound h.admissible hincoming,
    honoured_executed_iff hinv h.admissible hincoming⟩

namespace Sample

/-- A new buy at 10 that may not outlast its first match. -/
def hurried (timeInForce : TimeInForce) (quantity : Quantity) : NewOrder ℚ where
  clientId := "7"
  timestamp := 0
  order := .create "A" 2 .eurusd "7" "B1" .buy .limit timeInForce quantity 10 0
  isNew := Order.isNew_create ..

end Sample

theorem timeInForce_honoured_iff_sample :
    ∃ s, processAll (fun _ => 0) (init .eurusd 0) [Sample.submit 1 "S1" .sell .limit 3 10] =
        some s ∧
      (RiskManager.preCheck s.orderManager (Sample.hurried .ioc 3).order s.orderBook =
          some true →
        ∃ s', processNewOrder (fun _ => 0) (Sample.hurried .ioc 3) s = some s' ∧
          (TimeInForceHonoured s s' (Sample.hurried .ioc 3).order ↔
            s.OffersEnough (Sample.hurried .ioc 3).order)) :=
  timeInForce_honoured_iff (by decide) (fun _ => 0) .eurusd 0

/-- An `IOC` order rests with what it could not trade. -/
theorem ioc_remainder_rests :
    Valid [Sample.submit 1 "S1" .sell .limit 3 10, .newOrder (Sample.hurried .ioc 5)] ∧
      ∃ s s', processAll (fun _ => 0) (init .eurusd 0) [Sample.submit 1 "S1" .sell .limit 3 10] =
          some s ∧
        RiskManager.preCheck s.orderManager (Sample.hurried .ioc 5).order s.orderBook =
          some true ∧
        processNewOrder (fun _ => 0) (Sample.hurried .ioc 5) s = some s' ∧
        ¬TimeInForceHonoured s s' (Sample.hurried .ioc 5).order := by
  refine ⟨by decide, ?_⟩
  obtain ⟨s, hs⟩ := Option.isSome_iff_exists.mp (show (processAll (fun _ => 0)
    (init .eurusd 0) [Sample.submit 1 "S1" .sell .limit 3 10]).isSome by decide +kernel)
  have hpass : ((processAll (fun _ => 0) (init .eurusd 0)
      [Sample.submit 1 "S1" .sell .limit 3 10]).bind fun s =>
        RiskManager.preCheck s.orderManager (Sample.hurried .ioc 5).order s.orderBook) =
          some true := by
    decide +kernel
  have hrest : (((processAll (fun _ => 0) (init .eurusd 0)
      [Sample.submit 1 "S1" .sell .limit 3 10]).bind
        (processNewOrder (fun _ => 0) (Sample.hurried .ioc 5))).map fun s' =>
          s'.orderManager.containsOrderById 2) = some true := by
    decide +kernel
  rw [hs, Option.bind_some] at hpass hrest
  obtain ⟨s', hs', hmanaged⟩ := Option.map_eq_some_iff.mp hrest
  refine ⟨s, s', hs, hpass, hs', fun hhonoured => ?_⟩
  have hgone := (hhonoured.ioc rfl (Or.inl rfl)).2
  rw [show (Sample.hurried .ioc 5).order.coreOrderId = 2 from rfl, hmanaged] at hgone
  exact Bool.noConfusion hgone

end Partition

end BetaTrader
