import BetaTrader.Exchange.MatchTableSpec
import BetaTrader.Exchange.WorkerThread

/-!
# What the booking loop does

The loop runs over the trades of a match after all of them have been made.  A
trade is booked when both of its orders are registered; booking it may retire
either.  If the incoming order still is open the loop books every trade; if it is
filled, the first trade retires it, and the loop passes over the others.
-/

namespace BetaTrader

namespace OrderManager

variable {P : Type}

/-- The manager after the removal of several orders. -/
def removeAll (manager : OrderManager P) (ids : List OrderID) : OrderManager P :=
  ids.foldl removeOrderById manager

@[simp] theorem removeAll_nil (manager : OrderManager P) : manager.removeAll [] = manager := rfl

@[simp] theorem removeAll_cons (manager : OrderManager P) (id : OrderID) (ids : List OrderID) :
    manager.removeAll (id :: ids) = (manager.removeOrderById id).removeAll ids := rfl

theorem removeAll_append (manager : OrderManager P) (ids ids' : List OrderID) :
    manager.removeAll (ids ++ ids') = (manager.removeAll ids).removeAll ids' :=
  List.foldl_append

theorem removeAll_orderMap (manager : OrderManager P) (ids : List OrderID) (id : OrderID) :
    (manager.removeAll ids).orderMap id = if id ∈ ids then none else manager.orderMap id := by
  induction ids generalizing manager with
  | nil => simp
  | cons id' ids ih =>
      rw [removeAll_cons, ih, removeOrderById_orderMap]
      by_cases h : id = id' <;> by_cases h' : id ∈ ids <;> simp [h, h']

@[simp] theorem removeAll_lastSeen (manager : OrderManager P) (ids : List OrderID)
    (id : OrderID) : (manager.removeAll ids).lastSeen id = manager.lastSeen id := by
  induction ids generalizing manager with
  | nil => rfl
  | cons id' ids ih => rw [removeAll_cons, ih, removeOrderById_lastSeen]

end OrderManager

namespace Partition

variable {P : Type}

/-- Remove orders from the manager and record events. -/
def discharge (s : Partition P) (ids : List OrderID) (events : List (Event P)) : Partition P :=
  { s with
    orderManager := s.orderManager.removeAll ids
    journal := s.journal ++ events }

@[simp] theorem discharge_orderBook (s : Partition P) (ids : List OrderID)
    (events : List (Event P)) : (s.discharge ids events).orderBook = s.orderBook := rfl

@[simp] theorem discharge_currentId (s : Partition P) (ids : List OrderID)
    (events : List (Event P)) : (s.discharge ids events).currentId = s.currentId := rfl

@[simp] theorem discharge_journal (s : Partition P) (ids : List OrderID)
    (events : List (Event P)) : (s.discharge ids events).journal = s.journal ++ events := rfl

@[simp] theorem discharge_orderManager (s : Partition P) (ids : List OrderID)
    (events : List (Event P)) :
    (s.discharge ids events).orderManager = s.orderManager.removeAll ids := rfl

@[simp] theorem discharge_discharge (s : Partition P) (ids ids' : List OrderID)
    (events events' : List (Event P)) :
    (s.discharge ids events).discharge ids' events' =
      s.discharge (ids ++ ids') (events ++ events') := by
  simp [discharge, OrderManager.removeAll_append]

/-- The ids of the filled orders among those of a trade. -/
def filledAmong (orders : List (Order P)) : List OrderID :=
  (orders.filter fun order => order.remainingQuantity = 0).map Order.coreOrderId

theorem mem_filledAmong_pair {a b : Order P} {id : OrderID} :
    id ∈ filledAmong [a, b] ↔ (id = a.coreOrderId ∧ a.remainingQuantity = 0) ∨
      (id = b.coreOrderId ∧ b.remainingQuantity = 0) := by
  by_cases ha : a.remainingQuantity = 0 <;> by_cases hb : b.remainingQuantity = 0 <;>
    simp [filledAmong, ha, hb]

/-- The events of a booked trade. -/
def bookedEvents (trade : Trade P) (buyOrder sellOrder : Order P) : List (Event P) :=
  [.enqueued (.updateOrder buyOrder), .enqueued (.updateOrder sellOrder),
    .published (.trade trade buyOrder sellOrder)] ++
      (filledAmong [buyOrder, sellOrder]).map fun id => .enqueued (.removeOrder id)

/-- A trade whose orders are registered is booked. -/
theorem bookTrade_eq {s : Partition P} {trade : Trade P} {buyOrder sellOrder : Order P}
    (hbuy : s.orderManager.orderMap trade.buyOrderId = some buyOrder)
    (hsell : s.orderManager.orderMap trade.sellOrderId = some sellOrder)
    (hbuyId : buyOrder.coreOrderId = trade.buyOrderId)
    (hne : trade.buyOrderId ≠ trade.sellOrderId) :
    s.bookTrade trade = some (s.discharge (filledAmong [buyOrder, sellOrder])
      (bookedEvents trade buyOrder sellOrder)) := by
  have hother : (s.orderManager.removeOrderById trade.buyOrderId).orderMap trade.sellOrderId =
      some sellOrder := by
    rw [OrderManager.removeOrderById_orderMap_of_ne _ hne.symm, hsell]
  by_cases hbuyZero : buyOrder.remainingQuantity = 0 <;>
    by_cases hsellZero : sellOrder.remainingQuantity = 0 <;>
    simp [bookTrade, OrderManager.getOrderById, hbuy, hsell, OrderManager.deref, enqueue, publish,
      emit, retire, discharge, filledAmong, bookedEvents, hbuyZero, hsellZero, hbuyId, hother]

/-- A trade one of whose orders is gone is passed over. -/
theorem bookTrade_of_gone {s : Partition P} {trade : Trade P}
    (h : s.orderManager.orderMap trade.buyOrderId = none ∨
      s.orderManager.orderMap trade.sellOrderId = none) : s.bookTrade trade = some s := by
  simp only [bookTrade, OrderManager.getOrderById]
  split
  · simp_all
  · rfl

/-! ## The trades of one match -/

def buyer (incoming resting : Order P) : Order P :=
  if incoming.side = .buy then incoming else resting

def seller (incoming resting : Order P) : Order P :=
  if incoming.side = .buy then resting else incoming

/-- The orders that the booking of a fill retires. -/
def fillRetired (served : Order P) (f : Order P × ℕ) : List OrderID :=
  filledAmong [buyer served (f.1.giveFill f.2), seller served (f.1.giveFill f.2)]

/-- The events of the booking of a fill. -/
def fillEvents (served : Order P) (f : Order P × ℕ) (trade : Trade P) : List (Event P) :=
  bookedEvents trade (buyer served (f.1.giveFill f.2)) (seller served (f.1.giveFill f.2))

theorem mem_fillRetired {served : Order P} {f : Order P × ℕ} {id : OrderID} :
    id ∈ fillRetired served f ↔ (id = served.coreOrderId ∧ served.remainingQuantity = 0) ∨
      (id = f.1.coreOrderId ∧ (f.1.giveFill f.2).remainingQuantity = 0) := by
  rw [fillRetired, buyer, seller]
  split_ifs
  · exact mem_filledAmong_pair
  · exact mem_filledAmong_pair.trans or_comm

/-- The fills whose trades are booked. -/
def bookedFills (served : Order P) (fs : List (Order P × ℕ)) : List (Order P × ℕ) :=
  if served.remainingQuantity = 0 then fs.take 1 else fs

/-- The orders that the loop retires. -/
def retiredIds (served : Order P) (fs : List (Order P × ℕ)) : List OrderID :=
  (bookedFills served fs).flatMap (fillRetired served)

theorem mem_retiredIds {served : Order P} {fs : List (Order P × ℕ)} {id : OrderID} :
    id ∈ retiredIds served fs ↔
      (id = served.coreOrderId ∧ served.remainingQuantity = 0 ∧ fs ≠ []) ∨
        ∃ f ∈ bookedFills served fs, id = f.1.coreOrderId ∧
          (f.1.giveFill f.2).remainingQuantity = 0 := by
  have hbooked : bookedFills served fs = [] ↔ fs = [] := by
    rw [bookedFills]
    split_ifs <;> simp
  simp only [retiredIds, List.mem_flatMap, mem_fillRetired]
  constructor
  · rintro ⟨f, hf, h | h⟩
    · exact Or.inl ⟨h.1, h.2, fun hnil => List.ne_nil_of_mem hf (hbooked.mpr hnil)⟩
    · exact Or.inr ⟨f, hf, h⟩
  · rintro (⟨hid, hzero, hne⟩ | ⟨f, hf, h⟩)
    · obtain ⟨f, hf⟩ := List.exists_mem_of_ne_nil _ fun hnil => hne (hbooked.mp hnil)
      exact ⟨f, hf, Or.inl ⟨hid, hzero⟩⟩
    · exact ⟨f, hf, Or.inr h⟩

theorem bookedFills_prefix_self (served : Order P) (fs : List (Order P × ℕ)) :
    bookedFills served fs <+: fs := by
  rw [bookedFills]
  split_ifs
  · exact List.take_prefix 1 fs
  · exact List.prefix_refl fs

/-- The events of the loop; `post` are those of the call before its body. -/
def bookingEvents (post : Trade P → List (Event P)) (served : Order P)
    (fs : List (Order P × ℕ)) (trades : List (Trade P)) : List (Event P) :=
  (((bookedFills served fs).zip trades).flatMap fun p => post p.2 ++ fillEvents served p.1 p.2) ++
    (trades.drop (bookedFills served fs).length).flatMap post

open Matcher

variable {clock : Clock} {served : Order P} {s : Partition P}

theorem bookTrade_fill {f : Order P × ℕ} (currentId : TradeID) (tick : ℕ)
    (hi : s.orderManager.orderMap served.coreOrderId = some served)
    (hr : s.orderManager.orderMap f.1.coreOrderId = some (f.1.giveFill f.2))
    (hne : served.coreOrderId ≠ f.1.coreOrderId) :
    s.bookTrade (tradeOf clock served f.1 f.2 currentId tick) =
      some (s.discharge (fillRetired served f)
        (fillEvents served f (tradeOf clock served f.1 f.2 currentId tick))) := by
  by_cases hside : served.side = .buy
  · refine bookTrade_eq ?_ ?_ ?_ ?_ <;> simp [tradeOf, buyer, seller, hside, hi, hr, hne]
  · refine bookTrade_eq ?_ ?_ ?_ ?_ <;>
      simp [tradeOf, buyer, seller, hside, hi, hr, hne.symm, Order.giveFill]

section Loop

variable {postTrade : Partition P → Trade P → Partition P} {post : Trade P → List (Event P)}
  (hpost : ∀ s trade, postTrade s trade = s.discharge [] (post trade))

include hpost

theorem bookTrades_of_gone {trades : List (Trade P)}
    (h : ∀ trade ∈ trades, s.orderManager.orderMap trade.buyOrderId = none ∨
      s.orderManager.orderMap trade.sellOrderId = none) :
    bookTrades postTrade s trades = some (s.discharge [] (trades.flatMap post)) := by
  induction trades generalizing s with
  | nil => simp [bookTrades, discharge]
  | cons trade trades ih =>
      have htail : ∀ t ∈ trades, (s.discharge [] (post trade)).orderManager.orderMap
          t.buyOrderId = none ∨ (s.discharge [] (post trade)).orderManager.orderMap
            t.sellOrderId = none := fun t ht => h t (List.mem_cons_of_mem trade ht)
      have hgone : (s.discharge [] (post trade)).bookTrade trade =
          some (s.discharge [] (post trade)) := bookTrade_of_gone (h trade (by simp))
      rw [bookTrades, hpost, hgone, Option.bind_some, ih htail, discharge_discharge]
      rfl

/-- While the incoming order is open, the loop books every trade.  Each trade
retires its own resting order at most. -/
theorem bookTrades_of_open {fs : List (Order P × ℕ)} (currentId : TradeID) (tick : ℕ)
    (hopen : served.remainingQuantity ≠ 0)
    (hi : s.orderManager.orderMap served.coreOrderId = some served)
    (hr : ∀ f ∈ fs, s.orderManager.orderMap f.1.coreOrderId = some (f.1.giveFill f.2))
    (hnodup : (touchedIds fs).Nodup) (hne : served.coreOrderId ∉ touchedIds fs) :
    bookTrades postTrade s (tradesOf clock served fs currentId tick) =
      some (s.discharge (fs.flatMap (fillRetired served))
        ((fs.zip (tradesOf clock served fs currentId tick)).flatMap fun p =>
          post p.2 ++ fillEvents served p.1 p.2)) := by
  induction fs generalizing s currentId tick with
  | nil => simp [tradesOf, bookTrades, discharge]
  | cons f fs ih =>
      rw [touchedIds_cons, List.mem_cons, not_or] at hne
      rw [touchedIds_cons, List.nodup_cons] at hnodup
      let t := tradeOf clock served f.1 f.2 (currentId + 1) tick
      have hbook : (s.discharge [] (post t)).bookTrade t = some ((s.discharge [] (post t)).discharge
          (fillRetired served f) (fillEvents served f t)) :=
        bookTrade_fill _ _ hi (hr f (by simp)) hne.1
      have hkeep : ∀ id, id ≠ f.1.coreOrderId →
          ((s.discharge [] (post t)).discharge (fillRetired served f)
            (fillEvents served f t)).orderManager.orderMap id = s.orderManager.orderMap id := by
        intro id hid
        have hnot : id ∉ fillRetired served f := by
          rw [mem_fillRetired]
          rintro (⟨_, hzero⟩ | ⟨heq, _⟩)
          · exact hopen hzero
          · exact hid heq
        rw [discharge_orderManager, OrderManager.removeAll_orderMap, if_neg hnot]
        rfl
      have hrest := ih (currentId + 1) (tick + 1) ((hkeep _ hne.1).trans hi)
        (fun g hg => (hkeep _ fun heq => hnodup.1 (heq ▸ List.mem_map_of_mem hg)).trans
          (hr g (List.mem_cons_of_mem f hg))) hnodup.2 hne.2
      rw [tradesOf, bookTrades, hpost, hbook, Option.bind_some, hrest, discharge_discharge,
        discharge_discharge]
      simp [t]

/-- If the incoming order is filled, the first trade retires it and the loop
passes over the rest. -/
theorem bookTrades_of_filled {f : Order P × ℕ} {fs : List (Order P × ℕ)} (currentId : TradeID)
    (tick : ℕ) (hzero : served.remainingQuantity = 0)
    (hi : s.orderManager.orderMap served.coreOrderId = some served)
    (hr : s.orderManager.orderMap f.1.coreOrderId = some (f.1.giveFill f.2))
    (hne : served.coreOrderId ≠ f.1.coreOrderId) :
    bookTrades postTrade s (tradesOf clock served (f :: fs) currentId tick) =
      some (s.discharge (fillRetired served f)
        (post (tradeOf clock served f.1 f.2 (currentId + 1) tick) ++
          fillEvents served f (tradeOf clock served f.1 f.2 (currentId + 1) tick) ++
          (tradesOf clock served fs (currentId + 1) (tick + 1)).flatMap post)) := by
  let t := tradeOf clock served f.1 f.2 (currentId + 1) tick
  have hbook : (s.discharge [] (post t)).bookTrade t = some ((s.discharge [] (post t)).discharge
      (fillRetired served f) (fillEvents served f t)) := bookTrade_fill _ _ hi hr hne
  have hgone : ((s.discharge [] (post t)).discharge (fillRetired served f)
      (fillEvents served f t)).orderManager.orderMap served.coreOrderId = none := by
    rw [discharge_orderManager, OrderManager.removeAll_orderMap,
      if_pos (mem_fillRetired.mpr (Or.inl ⟨rfl, hzero⟩))]
  have hskip : ∀ trade ∈ tradesOf clock served fs (currentId + 1) (tick + 1),
      ((s.discharge [] (post t)).discharge (fillRetired served f)
        (fillEvents served f t)).orderManager.orderMap trade.buyOrderId = none ∨
      ((s.discharge [] (post t)).discharge (fillRetired served f)
        (fillEvents served f t)).orderManager.orderMap trade.sellOrderId = none := by
    intro trade htrade
    obtain ⟨g, _, id, tick', rfl⟩ := mem_tradesOf htrade
    rcases tradeOf_incoming clock served g.1 g.2 id tick' with h | h
    · exact Or.inl (h ▸ hgone)
    · exact Or.inr (h ▸ hgone)
  have hrest := bookTrades_of_gone hpost hskip
  rw [tradesOf, bookTrades, hpost, hbook, Option.bind_some, hrest, discharge_discharge,
    discharge_discharge]
  simp [t]

/-- What the booking loop does with the trades of a match. -/
theorem bookTrades_eq {fs : List (Order P × ℕ)} (currentId : TradeID) (tick : ℕ)
    (hi : s.orderManager.orderMap served.coreOrderId = some served)
    (hr : ∀ f ∈ fs, s.orderManager.orderMap f.1.coreOrderId = some (f.1.giveFill f.2))
    (hnodup : (touchedIds fs).Nodup) (hne : served.coreOrderId ∉ touchedIds fs) :
    bookTrades postTrade s (tradesOf clock served fs currentId tick) =
      some (s.discharge (retiredIds served fs)
        (bookingEvents post served fs (tradesOf clock served fs currentId tick))) := by
  by_cases hzero : served.remainingQuantity = 0
  · cases fs with
    | nil => simp [tradesOf, bookTrades, discharge, retiredIds, bookingEvents, bookedFills]
    | cons f fs =>
        rw [touchedIds_cons, List.mem_cons, not_or] at hne
        rw [bookTrades_of_filled hpost currentId tick hzero hi (hr f (by simp)) hne.1]
        simp [retiredIds, bookingEvents, bookedFills, hzero, tradesOf]
  · rw [bookTrades_of_open hpost currentId tick hzero hi hr hnodup hne]
    have hdrop : (tradesOf clock served fs currentId tick).drop fs.length = [] :=
      List.drop_eq_nil_of_le (length_tradesOf clock served fs currentId tick).le
    simp [retiredIds, bookingEvents, bookedFills, hzero, hdrop]

end Loop

end Partition

end BetaTrader
