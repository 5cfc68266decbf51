import BetaTrader.Exchange.BookInvariant
import BetaTrader.Exchange.BookingSpec

/-!
# What a command does

A command is rejected, or it cancels a resting order, or it takes an order to
the matcher.  `processCommand_cases` describes the partition after each of them
in closed form; everything later about runs goes back to it.
-/

namespace BetaTrader

variable {P : Type}

/-- The id of the order a command is about. -/
def Command.orderId : Command P → OrderID
  | .newOrder cmd => cmd.order.coreOrderId
  | .cancelOrder cmd => cmd.orderId
  | .modifyOrder cmd => cmd.orderId

/-- The ids of the orders a command brings in. -/
def Command.newIds : Command P → List OrderID
  | .newOrder cmd => [cmd.order.coreOrderId]
  | _ => []

/-- The ids of the orders that commands bring in. -/
def newIds (commands : List (Command P)) : List OrderID := commands.flatMap Command.newIds

/-- The conversion of requests knows limit and market orders only. -/
def Command.Supported : Command P → Prop
  | .newOrder cmd => cmd.order.orderType = .limit ∨ cmd.order.orderType = .market
  | _ => True

instance (cmd : Command P) : Decidable cmd.Supported :=
  match cmd with
  | .newOrder _ => inferInstanceAs (Decidable (_ ∨ _))
  | .cancelOrder _ => inferInstanceAs (Decidable True)
  | .modifyOrder _ => inferInstanceAs (Decidable True)

/-- What a command has to satisfy after orders with these ids: the id generator
never repeats an id. -/
def Admissible (ids : List OrderID) (cmd : Command P) : Prop :=
  (∀ id ∈ cmd.newIds, id ∉ ids) ∧ cmd.Supported

/-- The order as the modify handler rewrites it. -/
def ModifyOrder.applyTo (cmd : ModifyOrder P) (order : Order P) : Order P :=
  ((order.setPrice cmd.newPrice).setOriginalQuantity cmd.newQuantity).setStatus .new

/-- What holds between two commands. -/
structure Partition.Invariant [LT P] (ids : List OrderID) (s : Partition P) : Prop where
  book : BookInvariant s.orderManager s.orderBook
  uncrossed : Uncrossed s.orderBook
  /-- Registered orders are limit orders, under the id they came in with. -/
  managed : ∀ id order, s.orderManager.orderMap id = some order →
    order.coreOrderId = id ∧ order.orderType = .limit ∧ id ∈ ids

/-- The part of the invariant that does not depend on how prices compare. -/
structure Partition.Sound (ids : List OrderID) (s : Partition P) : Prop where
  book : BookSound s.orderManager s.orderBook
  managed : ∀ id order, s.orderManager.orderMap id = some order →
    order.coreOrderId = id ∧ order.orderType = .limit ∧ id ∈ ids

theorem Partition.Invariant.sound [LT P] {ids : List OrderID} {s : Partition P}
    (h : s.Invariant ids) : s.Sound ids :=
  ⟨h.book.sound, h.managed⟩

namespace Partition

open Matcher

/-! ## The stages of a command -/

/-- What `cancelOrder` records. -/
def cancelEvents (s : Partition P) (clock : Clock) (id : OrderID) : List (Event P) :=
  if s.orderBook.Contains id then ((s.orderManager.orderMap id).map fun order =>
    Event.refreshed (s.orderBook.refresh .delete order (clock s.ticks))).toList
  else []

/-- The partition after `cancelOrder`. -/
def cancelled (s : Partition P) (clock : Clock) (id : OrderID) : Partition P :=
  { s with
    orderBook := s.orderBook.without id
    ticks := if s.orderBook.Contains id then s.ticks + 1 else s.ticks
    journal := s.journal ++ s.cancelEvents clock id }

/-- The partition in which a command calls the matcher for `order`. -/
def prepared (s : Partition P) (clock : Clock) (order : Order P) : Command P → Partition P
  | .newOrder _ => (s.withManager (s.orderManager.write order.coreOrderId order)).emit
      [.enqueued (.saveOrder order), .published (.execution order "NEW")]
  | .cancelOrder _ => s
  | .modifyOrder _ => ((s.cancelled clock order.coreOrderId).withManager
      (s.orderManager.write order.coreOrderId order)).emit
        [.enqueued (.removeOrder order.coreOrderId), .enqueued (.saveOrder order),
          .published (.execution order "REPLACED")]

/-- What a command records before the match. -/
def admissionEvents (s : Partition P) (clock : Clock) (order : Order P) :
    Command P → List (Event P)
  | .newOrder _ => [.enqueued (.saveOrder order), .published (.execution order "NEW")]
  | .cancelOrder _ => []
  | .modifyOrder _ => s.cancelEvents clock order.coreOrderId ++
      [.enqueued (.removeOrder order.coreOrderId), .enqueued (.saveOrder order),
        .published (.execution order "REPLACED")]

/-- The events of the call that precedes the body of the booking loop. -/
def postEvents : Command P → Trade P → List (Event P)
  | .newOrder _, trade => [.enqueued (.addTrade trade)]
  | _, _ => []

/-- The side of the book that `order` is matched against. -/
def otherSide (s : Partition P) (order : Order P) : PriceMap P :=
  s.orderBook.sideMap order.side.opposite

section Stages

variable [LT P] [DecidableLT P]

/-- The orders that `order` reaches. -/
def crossing (s : Partition P) (order : Order P) : List (Order P) :=
  crossingOrders s.orderManager order (s.otherSide order)

/-- The fills of `order` in this partition. -/
def fills (s : Partition P) (order : Order P) : List (Order P × ℕ) :=
  fillsOn s.orderManager order (s.otherSide order)

/-- What the match leaves of `order`. -/
def served (s : Partition P) (order : Order P) : Order P :=
  Matcher.served s.orderManager order (s.otherSide order)

/-- The trades of `order` in this partition. -/
def trades (s : Partition P) (clock : Clock) (order : Order P) : List (Trade P) :=
  tradesOf clock order (s.fills order) s.currentId s.ticks

/-- The partition after the match. -/
def afterMatch (s : Partition P) (clock : Clock) (order : Order P) : Partition P where
  orderManager :=
    (matched clock order ⟨s.orderManager, s.currentId, s.ticks, []⟩ (s.otherSide order)).manager
  orderBook := s.orderBook.afterMatch s.orderManager order
  currentId := s.currentId + (s.fills order).length
  ticks := s.ticks + (s.fills order).length
  journal := s.journal ++ [.matched (s.trades clock order)]

/-- The partition after the booking loop. -/
def afterBooking (s : Partition P) (clock : Clock) (order : Order P) (cmd : Command P) :
    Partition P :=
  (s.afterMatch clock order).discharge (retiredIds (s.served order) (s.fills order))
    (bookingEvents (postEvents cmd) (s.served order) (s.fills order) (s.trades clock order))

/-- Does what is left of the order come to rest in the book? -/
def Remains (s : Partition P) (order : Order P) : Prop :=
  0 < (s.served order).openQuantity ∧ order.orderType = .limit

instance (s : Partition P) (order : Order P) : Decidable (s.Remains order) :=
  inferInstanceAs (Decidable (_ ∧ _))

/-- The partition after `insertOrder`. -/
def inserted (s : Partition P) (order : Order P) : Partition P :=
  { s with
    orderBook := s.orderBook.push order
    journal := s.journal ++ [.refreshed (s.orderBook.refresh .new order order.timestamp)] }

/-- The partition after all that follows the match: what is left of the order is
inserted or retired, unless the booking loop has retired it. -/
def afterAll (s : Partition P) (clock : Clock) (order : Order P) (cmd : Command P) :
    Partition P :=
  if s.Remains order then
    (s.afterBooking clock order cmd).inserted (s.served order)
  else if (s.served order).openQuantity = 0 ∧ s.fills order ≠ [] then
    s.afterBooking clock order cmd
  else (s.afterBooking clock order cmd).retire order.coreOrderId

/-- The partition after the command has executed `order`. -/
def executed (s : Partition P) (clock : Clock) (order : Order P) (cmd : Command P) :
    Partition P :=
  (s.prepared clock order cmd).afterAll clock order cmd

end Stages

section Incoming

variable [PriceArith P]

/-- The order that a command takes to the matcher. -/
def incomingOrder (s : Partition P) : Command P → Option (Order P)
  | .newOrder cmd =>
      if RiskManager.preCheck s.orderManager cmd.order s.orderBook = some true then some cmd.order
      else none
  | .cancelOrder _ => none
  | .modifyOrder cmd => (s.orderManager.getOrderById cmd.orderId).map cmd.applyTo

end Incoming

/-! ## Each call in closed form -/

section Calls

variable [PriceArith P] {s : Partition P} {order : Order P} {cmd : Command P} {clock : Clock}

omit [PriceArith P] in
theorem cancelInBook_eq (h : BookSound s.orderManager s.orderBook) (id : OrderID) :
    s.cancelInBook clock id =
      some (decide (s.orderBook.Contains id), s.cancelled clock id) := by
  simp only [cancelInBook, cancelOrder_eq h, Option.bind_eq_bind, Option.bind_some]
  by_cases hid : s.orderBook.Contains id
  · obtain ⟨order, horder, _⟩ := h.contains_orderMap hid
    simp [hid, horder, cancelled, cancelEvents]
  · simp [hid, cancelled, cancelEvents]

theorem matchOrder_eq (h : Matchable s.orderManager order (s.otherSide order)) :
    s.matchOrder clock order.coreOrderId =
      some (s.afterMatch clock order, s.trades clock order) := by
  have hmatch : Matcher.matchOrder clock order.coreOrderId
      ⟨s.orderManager, s.currentId, s.ticks, []⟩ s.orderBook = _ := Matcher.matchOrder_eq h
  simp only [matchOrder, hmatch, Option.bind_eq_bind, Option.bind_some]
  simp [afterMatch, trades, fills, otherSide, OrderBook.afterMatch]

/-- A match changes the quantity and the status of the incoming order only. -/
theorem served_set (s : Partition P) (order : Order P) :
    ∃ qty status, s.served order = (order.setRemainingQuantity qty).setStatus status :=
  served_eq s.orderManager order (s.otherSide order)

@[simp] theorem served_coreOrderId : (s.served order).coreOrderId = order.coreOrderId := by
  obtain ⟨qty, status, h⟩ := s.served_set order
  rw [h]
  rfl

theorem served_clientOrderId : (s.served order).clientOrderId = order.clientOrderId := by
  obtain ⟨qty, status, h⟩ := s.served_set order
  rw [h]
  rfl

theorem served_symbol : (s.served order).symbol = order.symbol := by
  obtain ⟨qty, status, h⟩ := s.served_set order
  rw [h]
  rfl

theorem served_side : (s.served order).side = order.side := by
  obtain ⟨qty, status, h⟩ := s.served_set order
  rw [h]
  rfl

theorem served_price : (s.served order).price = order.price := by
  obtain ⟨qty, status, h⟩ := s.served_set order
  rw [h]
  rfl

theorem served_originalQuantity :
    (s.served order).originalQuantity = order.originalQuantity := by
  obtain ⟨qty, status, h⟩ := s.served_set order
  rw [h]
  rfl

theorem trades_eq_served : s.trades clock order =
    tradesOf clock (s.served order) (s.fills order) s.currentId s.ticks := by
  obtain ⟨qty, status, h⟩ := s.served_set order
  rw [h, tradesOf_set, trades]

theorem afterMatch_incoming : (s.afterMatch clock order).orderManager.orderMap order.coreOrderId =
    some (s.served order) := matched_incoming

theorem bookTrades_afterMatch (clock : Clock) {postTrade : Partition P → Trade P → Partition P}
    (hpost : ∀ s trade, postTrade s trade = s.discharge [] (postEvents cmd trade))
    (h : Matchable s.orderManager order (s.otherSide order)) :
    (s.afterMatch clock order).bookTrades postTrade (s.trades clock order) =
      some (s.afterBooking clock order cmd) := by
  rw [trades_eq_served, afterBooking, trades_eq_served]
  refine bookTrades_eq hpost _ _ ?_ ?_ ?_ ?_
  · rw [served_coreOrderId]
    exact afterMatch_incoming
  · exact fun f hf => matched_resting h hf
  · exact nodup_touchedIds h
  · rw [served_coreOrderId]
    exact incoming_notMem_touchedIds h

theorem mem_retiredIds_incoming (h : Matchable s.orderManager order (s.otherSide order)) :
    order.coreOrderId ∈ retiredIds (s.served order) (s.fills order) ↔
      (s.served order).openQuantity = 0 ∧ s.fills order ≠ [] := by
  rw [mem_retiredIds, served_coreOrderId, Order.remainingQuantity_eq_zero_iff]
  refine ⟨?_, fun hzero => Or.inl ⟨rfl, hzero⟩⟩
  rintro (⟨_, hzero⟩ | ⟨f, hf, hid, _⟩)
  · exact hzero
  · exact (incoming_notMem_touchedIds h
      (hid ▸ List.mem_map_of_mem ((bookedFills_prefix_self _ _).subset hf))).elim

theorem afterBooking_incoming (clock : Clock) (cmd : Command P)
    (h : Matchable s.orderManager order (s.otherSide order)) :
    (s.afterBooking clock order cmd).orderManager.orderMap order.coreOrderId =
      if (s.served order).openQuantity = 0 ∧ s.fills order ≠ [] then none
      else some (s.served order) := by
  rw [afterBooking, discharge_orderManager, OrderManager.removeAll_orderMap, afterMatch_incoming]
  simp only [mem_retiredIds_incoming h]

theorem served_of_fills_nil (h : s.fills order = []) :
    (s.served order).openQuantity = order.openQuantity := by
  rw [served, Matcher.served_openQuantity]
  rcases Allocation.fills_eq_nil_iff.mp h with hzero | hnil
  · omega
  · rw [hnil]
    rfl

theorem served_openQuantity : (s.served order).openQuantity =
    order.openQuantity - Allocation.total Order.openQuantity (s.crossing order) :=
  Matcher.served_openQuantity s.orderManager order (s.otherSide order)

/-- The booking loop books every trade if the incoming order stays open, or if
there is but one trade. -/
theorem length_bookedFills : (bookedFills (s.served order) (s.fills order)).length =
      (s.fills order).length ↔
    Allocation.total Order.openQuantity (s.crossing order) < order.openQuantity ∨
      ∀ first ∈ (s.crossing order).head?, order.openQuantity ≤ first.openQuantity := by
  have hfills : (s.fills order).length ≤ 1 ↔ (s.crossing order).length ≤ 1 ∨
      ∀ first ∈ (s.crossing order).head?, order.openQuantity ≤ first.openQuantity :=
    Allocation.length_fills_le_one_iff
  have hzero : (s.served order).openQuantity = _ := served_openQuantity
  rw [bookedFills]
  split_ifs with h
  · rw [Order.remainingQuantity_eq_zero_iff] at h
    have hmin : min 1 (s.fills order).length = (s.fills order).length ↔
        (s.fills order).length ≤ 1 := by omega
    rw [List.length_take, hmin, hfills]
    constructor
    · rintro (hshort | hle)
      · -- the whole crossing queue is one order, and it is not less than what is asked
        refine Or.inr fun first hfirst => ?_
        obtain ⟨rest, hcrossing⟩ := List.head?_eq_some_iff.mp hfirst
        have hrest : rest = [] := by
          rw [hcrossing, List.length_cons] at hshort
          exact List.eq_nil_of_length_eq_zero (by omega)
        rw [hcrossing, hrest, Allocation.total_cons, Allocation.total_nil] at hzero
        omega
      · exact Or.inr hle
    · rintro (hlt | hle)
      · omega
      · exact Or.inr hle
  · rw [Order.remainingQuantity_eq_zero_iff] at h
    exact iff_of_true rfl (Or.inl (by omega))

theorem insertInBook_eq (h : s.orderManager.orderMap order.coreOrderId = some order) :
    s.insertInBook order.coreOrderId = some (s.inserted order) := by
  simp only [insertInBook, insertOrder_eq h, Option.bind_eq_bind, Option.bind_some]
  rfl

theorem insertIfOpen_afterBooking (clock : Clock) (cmd : Command P)
    (h : Matchable s.orderManager order (s.otherSide order)) :
    (s.afterBooking clock order cmd).insertIfOpen order.coreOrderId =
      some (if 0 < (s.served order).openQuantity then
        (s.afterBooking clock order cmd).inserted (s.served order)
      else s.afterBooking clock order cmd) := by
  have hlive := afterBooking_incoming clock cmd h
  by_cases hopen : 0 < (s.served order).openQuantity
  · rw [if_neg (by omega)] at hlive
    have hserved : (s.afterBooking clock order cmd).orderManager.orderMap
        (s.served order).coreOrderId = some (s.served order) := by
      rw [served_coreOrderId]
      exact hlive
    have hinsert := insertInBook_eq hserved
    rw [served_coreOrderId] at hinsert
    simp only [insertIfOpen, OrderManager.getOrderById, hlive, Order.remainingQuantity_pos_iff,
      hopen, if_true, hinsert]
  · simp only [insertIfOpen, OrderManager.getOrderById, hlive, if_neg hopen]
    split_ifs <;> simp [Order.remainingQuantity_pos_iff, hopen]

end Calls

/-! ## The order that is admitted -/

section Admission

variable [PriceArith P] {ids : List OrderID} {s : Partition P} {order : Order P}
  {cmd : Command P} {clock : Clock}

/-- What a command takes to the matcher: a new order whose id is free, or a
registered order with its new price and quantity. -/
theorem incomingOrder_cases (hinv : s.Sound ids) (hcmd : Admissible ids cmd)
    (h : s.incomingOrder cmd = some order) :
    (∃ c, cmd = .newOrder c ∧ order = c.order ∧
      RiskManager.preCheck s.orderManager order s.orderBook = some true ∧
      s.orderManager.orderMap order.coreOrderId = none ∧ order.coreOrderId ∉ ids ∧
      (order.orderType = .limit ∨ order.orderType = .market)) ∨
    (∃ c old, cmd = .modifyOrder c ∧ order = c.applyTo old ∧ c.orderId = order.coreOrderId ∧
      s.orderManager.orderMap order.coreOrderId = some old ∧ order.coreOrderId ∈ ids ∧
      order.orderType = .limit) := by
  cases cmd with
  | newOrder c =>
      simp only [incomingOrder, Option.ite_none_right_eq_some, Option.some.injEq] at h
      obtain ⟨hpre, rfl⟩ := h
      have hfresh : c.order.coreOrderId ∉ ids := hcmd.1 _ (List.mem_singleton.mpr rfl)
      refine Or.inl ⟨c, rfl, rfl, hpre, ?_, hfresh, hcmd.2⟩
      by_contra hsome
      obtain ⟨order, horder⟩ := Option.ne_none_iff_exists'.mp hsome
      exact hfresh (hinv.managed _ order horder).2.2
  | cancelOrder c => simp [incomingOrder] at h
  | modifyOrder c =>
      simp only [incomingOrder, OrderManager.getOrderById, Option.map_eq_some_iff] at h
      obtain ⟨old, hold, rfl⟩ := h
      obtain ⟨hid, htype, hmem⟩ := hinv.managed _ old hold
      have hid' : c.orderId = (c.applyTo old).coreOrderId := hid.symm
      exact Or.inr ⟨c, old, rfl, rfl, hid', hid' ▸ hold, hid' ▸ hmem, htype⟩

theorem incomingOrder_quantity (h : s.incomingOrder cmd = some order) : order.IsNew := by
  cases cmd with
  | newOrder c =>
      simp only [incomingOrder, Option.ite_none_right_eq_some, Option.some.injEq] at h
      exact h.2 ▸ c.isNew
  | cancelOrder c => simp [incomingOrder] at h
  | modifyOrder c =>
      simp only [incomingOrder, Option.map_eq_some_iff] at h
      obtain ⟨old, _, rfl⟩ := h
      exact ⟨rfl, rfl⟩

theorem prepared_orderManager (h : s.incomingOrder cmd = some order) :
    (s.prepared clock order cmd).orderManager = s.orderManager.write order.coreOrderId order := by
  cases cmd with
  | newOrder c => rfl
  | cancelOrder c => simp [incomingOrder] at h
  | modifyOrder c => rfl

omit [PriceArith P] in
@[simp] theorem prepared_currentId : (s.prepared clock order cmd).currentId = s.currentId := by
  cases cmd <;> rfl

theorem prepared_orderBook (hinv : s.Sound ids) (hcmd : Admissible ids cmd)
    (h : s.incomingOrder cmd = some order) :
    (s.prepared clock order cmd).orderBook = s.orderBook.without order.coreOrderId := by
  rcases incomingOrder_cases hinv hcmd h with ⟨c, rfl, _, _, hnone, _⟩ | ⟨c, old, rfl, _⟩
  · have hnot : ¬s.orderBook.Contains order.coreOrderId := by
      intro hmem
      obtain ⟨_, horder, _⟩ := hinv.book.contains_orderMap hmem
      simp [hnone] at horder
    exact (hinv.book.without_eq_self hnot).symm
  · rfl

theorem prepared_afterMatch_symbol (hinv : s.Sound ids) (hcmd : Admissible ids cmd)
    (h : s.incomingOrder cmd = some order) (clock : Clock) :
    ((s.prepared clock order cmd).orderBook.afterMatch
      (s.prepared clock order cmd).orderManager order).symbol = s.orderBook.symbol := by
  rw [OrderBook.afterMatch, OrderBook.symbol_setSideMap, prepared_orderBook hinv hcmd h]
  rfl

omit [PriceArith P] in
theorem prepared_journal : (s.prepared clock order cmd).journal =
    s.journal ++ s.admissionEvents clock order cmd := by
  cases cmd <;> simp [prepared, admissionEvents, emit, withManager, cancelled]

theorem incoming_notMem_otherSide (hinv : s.Sound ids) (hcmd : Admissible ids cmd)
    (h : s.incomingOrder cmd = some order) :
    order.coreOrderId ∉ Levels.queue (s.otherSide order) := by
  intro hmem
  obtain ⟨resting, hresting, _, hside, _⟩ := (hinv.book _).rests _ hmem
  rcases incomingOrder_cases hinv hcmd h with
    ⟨_, _, _, _, hnone, _⟩ | ⟨c, old, _, rfl, _, hold, _⟩
  · simp [hnone] at hresting
  · have heq : old = resting := Option.some.inj (hold.symm.trans hresting)
    exact OrderSide.opposite_ne old.side (heq ▸ hside.symm)

/-- Admission leaves the other side of the book and its orders alone. -/
theorem prepared_otherSide (hinv : s.Sound ids) (hcmd : Admissible ids cmd)
    (h : s.incomingOrder cmd = some order) (clock : Clock) :
    (s.prepared clock order cmd).otherSide order = s.otherSide order := by
  rw [otherSide, prepared_orderBook hinv hcmd h, OrderBook.sideMap_without]
  exact (hinv.book _).prune_eq_self (incoming_notMem_otherSide hinv hcmd h)

theorem prepared_crossing (hinv : s.Sound ids) (hcmd : Admissible ids cmd)
    (h : s.incomingOrder cmd = some order) (clock : Clock) :
    (s.prepared clock order cmd).crossing order = s.crossing order := by
  rw [crossing, prepared_otherSide hinv hcmd h, prepared_orderManager h]
  refine restingOrders_congr fun ptr hptr => OrderManager.write_orderMap_of_ne _ _ fun heq => ?_
  exact incoming_notMem_otherSide hinv hcmd h (heq ▸ mem_queue_of_mem_crossing hptr)

theorem prepared_fills (hinv : s.Sound ids) (hcmd : Admissible ids cmd)
    (h : s.incomingOrder cmd = some order) (clock : Clock) :
    (s.prepared clock order cmd).fills order = s.fills order :=
  congrArg (Allocation.fills Order.openQuantity order.openQuantity)
    (prepared_crossing hinv hcmd h clock)

theorem prepared_served (hinv : s.Sound ids) (hcmd : Admissible ids cmd)
    (h : s.incomingOrder cmd = some order) (clock : Clock) :
    (s.prepared clock order cmd).served order = s.served order :=
  congrArg (fun fs => (afterFills order fs).setStatus (finalStatus (afterFills order fs)))
    (prepared_fills hinv hcmd h clock)

theorem prepared_trades (hinv : s.Sound ids) (hcmd : Admissible ids cmd)
    (h : s.incomingOrder cmd = some order) (clock : Clock) :
    (s.prepared clock order cmd).trades clock order =
      tradesOf clock order (s.fills order) s.currentId (s.prepared clock order cmd).ticks := by
  rw [trades, prepared_fills hinv hcmd h, prepared_currentId]

theorem prepared_book (hinv : s.Sound ids) (hcmd : Admissible ids cmd)
    (h : s.incomingOrder cmd = some order) :
    BookSound (s.prepared clock order cmd).orderManager
      (s.prepared clock order cmd).orderBook := by
  rw [prepared_orderManager h, prepared_orderBook hinv hcmd h]
  refine (hinv.book.without order.coreOrderId).congr fun ptr hptr => ?_
  exact OrderManager.write_orderMap_of_ne _ _ (OrderBook.contains_without.mp hptr).1

theorem prepared_matchable (clock : Clock) (hinv : s.Sound ids) (hcmd : Admissible ids cmd)
    (h : s.incomingOrder cmd = some order) :
    Matchable (s.prepared clock order cmd).orderManager order
      ((s.prepared clock order cmd).otherSide order) := by
  refine (prepared_book hinv hcmd h).matchable ?_ ?_ _
  · rw [prepared_orderManager h, OrderManager.write_orderMap_self]
  · rw [prepared_orderBook hinv hcmd h]
    exact OrderBook.not_contains_without _ _

/-! ## The handlers -/

theorem processNewOrder_eq {c : NewOrder P} (hinv : s.Sound ids)
    (hcmd : Admissible ids (.newOrder c))
    (h : s.incomingOrder (.newOrder c) = some order) :
    processNewOrder clock c s = some (s.executed clock order (.newOrder c)) := by
  have hmatchable := prepared_matchable clock hinv hcmd h
  rcases incomingOrder_cases hinv hcmd h with ⟨c', heq, rfl, hpre, hnone, _, htype⟩ | ⟨_, _, heq, _⟩
  · cases heq
    have hprepared : ((s.withManager (s.orderManager.write c.order.coreOrderId c.order)).enqueue
        (.saveOrder c.order)).publish (.execution c.order "NEW") =
          s.prepared clock c.order (.newOrder c) := by
      simp [prepared, withManager, enqueue, publish, emit]
    have hpost : ∀ (s : Partition P) trade, s.postTradeUpdate trade =
        s.discharge [] (postEvents (.newOrder c) trade) := fun _ _ => rfl
    have hbook := bookTrades_afterMatch clock hpost hmatchable
    have hlive := afterBooking_incoming clock (.newOrder c) hmatchable
    have hinsert := insertIfOpen_afterBooking clock (.newOrder c) hmatchable
    simp only [processNewOrder, hpre, OrderManager.addOrder_eq hnone, hprepared,
      matchOrder_eq hmatchable, hbook, Option.bind_eq_bind, Option.bind_some]
    rcases htype with htype | htype
    · simp only [htype, if_true, hinsert, Option.bind_some]
      have hopen : 0 < c.order.openQuantity := by
        have hpos := RiskManager.originalQuantity_pos_of_preCheck hpre
        rw [← c.isNew.1] at hpos
        exact Order.remainingQuantity_pos_iff.mp hpos
      by_cases hleft : 0 < ((s.prepared clock c.order (.newOrder c)).served c.order).openQuantity
      · simp [executed, afterAll, Remains, hleft, htype]
      · have hfills : (s.prepared clock c.order (.newOrder c)).fills c.order ≠ [] := by
          intro hnil
          rw [served_of_fills_nil hnil] at hleft
          exact hleft hopen
        have hzero :
            ((s.prepared clock c.order (.newOrder c)).served c.order).openQuantity = 0 := by
          omega
        simp [executed, afterAll, Remains, hzero, hfills]
    · simp only [htype, executed, afterAll, Remains, OrderManager.containsOrderById, hlive]
      split_ifs <;> simp_all
  · cases heq

theorem processModifyOrder_eq {c : ModifyOrder P} (hinv : s.Sound ids)
    (h : s.incomingOrder (.modifyOrder c) = some order) :
    processModifyOrder clock c s = some (s.executed clock order (.modifyOrder c)) := by
  have hcmd : Admissible ids (.modifyOrder c) := ⟨by simp [Command.newIds], trivial⟩
  have hmatchable := prepared_matchable clock hinv hcmd h
  rcases incomingOrder_cases hinv hcmd h with ⟨_, heq, _⟩ | ⟨c', old, heq, rfl, hid, hold, _, htype⟩
  · cases heq
  · cases heq
    rw [← hid] at hold
    have hprepared : ((((s.cancelled clock c.orderId).enqueue (.removeOrder c.orderId)).withManager
        (s.orderManager.write c.orderId (c.applyTo old))).enqueue
          (.saveOrder (c.applyTo old))).publish (.execution (c.applyTo old) "REPLACED") =
            s.prepared clock (c.applyTo old) (.modifyOrder c) := by
      simp [prepared, withManager, enqueue, publish, emit, cancelled, ← hid]
    have hmodify :
        ((s.cancelled clock c.orderId).enqueue (.removeOrder c.orderId)).orderManager.modify
            c.orderId (fun order => ((order.setPrice c.newPrice).setOriginalQuantity
              c.newQuantity).setStatus .new) =
          some (s.orderManager.write c.orderId (c.applyTo old)) :=
      OrderManager.modify_eq hold _
    have hderef : (((s.cancelled clock c.orderId).enqueue (.removeOrder c.orderId)).withManager
        (s.orderManager.write c.orderId (c.applyTo old))).orderManager.deref c.orderId =
          some (c.applyTo old) := OrderManager.write_orderMap_self _ _ _
    have hmatch : (s.prepared clock (c.applyTo old) (.modifyOrder c)).matchOrder clock
        (c.applyTo old).coreOrderId = _ := matchOrder_eq hmatchable
    have hpost : ∀ (s : Partition P) trade,
        s = s.discharge [] (postEvents (.modifyOrder c) trade) := by
      simp [discharge, postEvents]
    have hbook := bookTrades_afterMatch clock hpost hmatchable
    have hlive := afterBooking_incoming clock (.modifyOrder c) hmatchable
    have hinsert := insertIfOpen_afterBooking clock (.modifyOrder c) hmatchable
    rw [← hid] at hmatch hlive hinsert
    simp only [processModifyOrder, OrderManager.getOrderById, hold, cancelInBook_eq hinv.book,
      Option.bind_eq_bind, Option.bind_some, hmodify, hderef, hprepared, hmatch, hbook, hinsert]
    by_cases hleft : 0 < ((s.prepared clock (c.applyTo old) (.modifyOrder c)).served
        (c.applyTo old)).openQuantity
    · rw [if_neg (by omega)] at hlive
      have hne : ¬((s.prepared clock (c.applyTo old) (.modifyOrder c)).served
          (c.applyTo old)).remainingQuantity = 0 := by
        rw [Order.remainingQuantity_eq_zero_iff]
        omega
      simp [executed, afterAll, Remains, hleft, htype, inserted, hlive, hne]
    · have hzero : ((s.prepared clock (c.applyTo old) (.modifyOrder c)).served
          (c.applyTo old)).openQuantity = 0 := by omega
      have hrem := Order.remainingQuantity_eq_zero_iff.mpr hzero
      by_cases hfills :
          (s.prepared clock (c.applyTo old) (.modifyOrder c)).fills (c.applyTo old) = []
      · rw [if_neg fun h => h.2 hfills] at hlive
        simp [executed, afterAll, Remains, hzero, hfills, hlive, hrem, ← hid]
      · rw [if_pos ⟨hzero, hfills⟩] at hlive
        simp [executed, afterAll, Remains, hzero, hfills, hlive]

theorem processCancelOrder_eq {c : CancelOrder} (hinv : s.Sound ids)
    (horder : s.orderManager.orderMap c.orderId = some order)
    (hmem : s.orderBook.Contains c.orderId) (clock : Clock) :
    processCommand clock s (.cancelOrder c) =
      some (((s.cancelled clock c.orderId).publish (.execution order "CANCELED")).retire
        c.orderId) := by
  have hderef : (s.cancelled clock c.orderId).orderManager.deref c.orderId = some order := horder
  simp only [processCommand, processCancelOrder, OrderManager.getOrderById, horder,
    cancelInBook_eq hinv.book, Option.bind_eq_bind, Option.bind_some, hderef]
  simp [hmem]

/-- A command is rejected, cancels an order, or executes one. -/
theorem processCommand_cases (hinv : s.Sound ids) (hcmd : Admissible ids cmd) (clock : Clock) :
    (s.incomingOrder cmd = none ∧ ∃ clientId symbol side reason,
      processCommand clock s cmd =
        some (s.publishRejection clock cmd.orderId clientId symbol side reason)) ∨
    (∃ c order, cmd = .cancelOrder c ∧ s.orderManager.orderMap c.orderId = some order ∧
      s.orderBook.Contains c.orderId ∧ processCommand clock s cmd =
        some (((s.cancelled clock c.orderId).publish (.execution order "CANCELED")).retire
          c.orderId)) ∨
    (∃ order, s.incomingOrder cmd = some order ∧
      processCommand clock s cmd = some (s.executed clock order cmd)) := by
  cases cmd with
  | newOrder c =>
      obtain ⟨passed, hpassed⟩ : ∃ passed,
          RiskManager.preCheck s.orderManager c.order s.orderBook = some passed :=
        RiskManager.preCheck_isSome fun ptr hptr => (hinv.book.contains_orderMap
          (OrderBook.contains_iff.mpr ⟨_, hptr⟩)).imp fun _ h => h.1
      cases passed with
      | true =>
          have hincoming : s.incomingOrder (.newOrder c) = some c.order := by
            simp [incomingOrder, hpassed]
          exact Or.inr (Or.inr ⟨c.order, hincoming, processNewOrder_eq hinv hcmd hincoming⟩)
      | false =>
          have hincoming : s.incomingOrder (.newOrder c) = none := by
            simp [incomingOrder, hpassed]
          refine Or.inl ⟨hincoming, c.order.clientId, c.order.symbol, c.order.side,
            "Risk check failed", ?_⟩
          simp only [processCommand, processNewOrder, hpassed, Option.bind_eq_bind,
            Option.bind_some]
          rfl
  | cancelOrder c =>
      cases horder : s.orderManager.orderMap c.orderId with
      | none =>
          refine Or.inl ⟨rfl, c.clientId, .eurusd, .buy, "Order not found", ?_⟩
          simp only [processCommand, processCancelOrder, OrderManager.getOrderById, horder]
          rfl
      | some order =>
          by_cases hid : s.orderBook.Contains c.orderId
          · exact Or.inr (Or.inl ⟨c, order, rfl, horder, hid,
              processCancelOrder_eq hinv horder hid clock⟩)
          · refine Or.inl ⟨rfl, c.clientId, order.symbol, order.side,
              "Order cannot be canceled", ?_⟩
            simp only [processCommand, processCancelOrder, OrderManager.getOrderById, horder,
              cancelInBook_eq hinv.book, Option.bind_eq_bind, Option.bind_some]
            have hsame : s.cancelled clock c.orderId = s := by
              simp [cancelled, cancelEvents, hid, hinv.book.without_eq_self hid]
            have hderef : s.orderManager.deref c.orderId = some order := horder
            rw [hsame]
            simp only [hderef, Option.bind_some, hid, decide_false]
            rfl
  | modifyOrder c =>
      cases horder : s.orderManager.orderMap c.orderId with
      | none =>
          refine Or.inl ⟨?_, c.clientId, .eurusd, .buy, "Order not found", ?_⟩
          · simp [incomingOrder, OrderManager.getOrderById, horder]
          · simp only [processCommand, processModifyOrder, OrderManager.getOrderById, horder]
            rfl
      | some old =>
          have hincoming : s.incomingOrder (.modifyOrder c) = some (c.applyTo old) := by
            simp [incomingOrder, OrderManager.getOrderById, horder]
          exact Or.inr (Or.inr ⟨_, hincoming, processModifyOrder_eq hinv hincoming⟩)

end Admission

/-! ## The parts of the result -/

section Parts

variable [PriceArith P] {s : Partition P} {order : Order P} {cmd : Command P} {clock : Clock}

omit [PriceArith P] in
@[simp] theorem retire_orderManager (id : OrderID) :
    (s.retire id).orderManager = s.orderManager.removeOrderById id := rfl

omit [PriceArith P] in
@[simp] theorem retire_orderBook (id : OrderID) : (s.retire id).orderBook = s.orderBook := rfl

omit [PriceArith P] in
@[simp] theorem retire_journal (id : OrderID) :
    (s.retire id).journal = s.journal ++ [.enqueued (.removeOrder id)] := rfl

@[simp] theorem inserted_orderManager : (s.inserted order).orderManager = s.orderManager := rfl

@[simp] theorem inserted_orderBook :
    (s.inserted order).orderBook = s.orderBook.push order := rfl

@[simp] theorem inserted_journal : (s.inserted order).journal =
    s.journal ++ [.refreshed (s.orderBook.refresh .new order order.timestamp)] := rfl

@[simp] theorem afterMatch_orderBook : (s.afterMatch clock order).orderBook =
    s.orderBook.afterMatch s.orderManager order := rfl

@[simp] theorem afterMatch_journal : (s.afterMatch clock order).journal =
    s.journal ++ [.matched (s.trades clock order)] := rfl

@[simp] theorem afterBooking_orderManager : (s.afterBooking clock order cmd).orderManager =
    (s.afterMatch clock order).orderManager.removeAll
      (retiredIds (s.served order) (s.fills order)) := rfl

@[simp] theorem afterBooking_orderBook : (s.afterBooking clock order cmd).orderBook =
    s.orderBook.afterMatch s.orderManager order := rfl

@[simp] theorem afterBooking_journal : (s.afterBooking clock order cmd).journal =
    s.journal ++ .matched (s.trades clock order) :: bookingEvents (postEvents cmd)
      (s.served order) (s.fills order) (s.trades clock order) := by
  simp [afterBooking]

/-- What is recorded after the booking loop. -/
def closingEvents (s : Partition P) (order : Order P) : List (Event P) :=
  if s.Remains order then [.refreshed ((s.orderBook.afterMatch s.orderManager order).refresh .new
    (s.served order) (s.served order).timestamp)]
  else if (s.served order).openQuantity = 0 ∧ s.fills order ≠ [] then []
  else [.enqueued (.removeOrder order.coreOrderId)]

theorem afterAll_journal : (s.afterAll clock order cmd).journal = s.journal ++
    .matched (s.trades clock order) :: (bookingEvents (postEvents cmd) (s.served order)
      (s.fills order) (s.trades clock order) ++ s.closingEvents order) := by
  rw [afterAll, closingEvents]
  split_ifs <;> simp

theorem afterAll_orderBook : (s.afterAll clock order cmd).orderBook =
    if s.Remains order then (s.orderBook.afterMatch s.orderManager order).push (s.served order)
    else s.orderBook.afterMatch s.orderManager order := by
  rw [afterAll]
  split_ifs <;> simp

@[simp] theorem afterAll_currentId :
    (s.afterAll clock order cmd).currentId = s.currentId + (s.fills order).length := by
  rw [afterAll]
  split_ifs
  · exact (rfl : (s.afterMatch clock order).currentId = _)
  · exact (rfl : (s.afterMatch clock order).currentId = _)
  · exact (rfl : (s.afterMatch clock order).currentId = _)

theorem afterAll_lastSeen (id : OrderID) : (s.afterAll clock order cmd).orderManager.lastSeen id =
    (s.afterMatch clock order).orderManager.lastSeen id := by
  rw [afterAll]
  split_ifs <;> simp

/-- An order other than the incoming one leaves the manager in the booking loop only. -/
theorem afterAll_other {id : OrderID} (hid : id ≠ order.coreOrderId) :
    (s.afterAll clock order cmd).orderManager.orderMap id =
      if id ∈ retiredIds (s.served order) (s.fills order) then none
      else (s.afterMatch clock order).orderManager.orderMap id := by
  rw [← OrderManager.removeAll_orderMap, afterAll]
  split_ifs
  · rw [inserted_orderManager, afterBooking_orderManager]
  · rw [afterBooking_orderManager]
  · rw [retire_orderManager, OrderManager.removeOrderById_orderMap_of_ne _ hid,
      afterBooking_orderManager]

/-- The incoming order stays registered if it comes to rest. -/
theorem afterAll_incoming (h : Matchable s.orderManager order (s.otherSide order)) :
    (s.afterAll clock order cmd).orderManager.orderMap order.coreOrderId =
      if s.Remains order then some (s.served order) else none := by
  have hlive := afterBooking_incoming clock cmd h
  rw [afterAll]
  by_cases hremains : s.Remains order
  · have hopen : ¬((s.served order).openQuantity = 0 ∧ s.fills order ≠ []) := fun hzero =>
      hremains.1.ne' hzero.1
    rw [if_pos hremains, if_pos hremains, inserted_orderManager, hlive, if_neg hopen]
  · rw [if_neg hremains, if_neg hremains]
    split_ifs at hlive ⊢
    · exact hlive
    · rw [retire_orderManager, OrderManager.removeOrderById_orderMap_self]

/-- An order in the manager after a match was there before, and is unchanged
unless a fill went to it. -/
theorem afterMatch_other (clock : Clock) (h : Matchable s.orderManager order (s.otherSide order))
    {id : OrderID} (hid : id ≠ order.coreOrderId) :
    (id ∉ touchedIds (s.fills order) ∧
      (s.afterMatch clock order).orderManager.orderMap id = s.orderManager.orderMap id) ∨
    (∃ f ∈ s.fills order, f.1.coreOrderId = id ∧ s.orderManager.orderMap id = some f.1 ∧
      (s.afterMatch clock order).orderManager.orderMap id = some (f.1.giveFill f.2)) := by
  by_cases htouched : id ∈ touchedIds (s.fills order)
  · obtain ⟨f, hf, rfl⟩ := List.mem_map.mp htouched
    exact Or.inr ⟨f, hf, rfl, (mem_fillsOn h hf).1, matched_resting h hf⟩
  · exact Or.inl ⟨htouched, matched_other hid htouched⟩

end Parts

end Partition

end BetaTrader
