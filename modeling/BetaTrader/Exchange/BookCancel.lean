import BetaTrader.Exchange.BookInvariant

/-!
# What a cancellation takes out

`cancelOrder` over every book in which each order is stored once, on its own side.  The
two loops find the order wherever it is, and what they leave is the book without it.
Inserting a new order and cancelling it leaves the book as it was, and cancellations of
different orders commute.
-/

namespace BetaTrader

variable {P : Type}

/-- The value of a call, the book after it and the refreshes published in it. -/
structure CancelCall (P : Type) where
  returned : Bool
  book : OrderBook P
  published : List (MarketDataIncrementalRefresh P)

def OrderBook.cancelCall (book : OrderBook P) (manager : OrderManager P) (orderId : OrderID)
    (now : Timestamp) : Option (CancelCall P) :=
  (book.cancelOrder manager orderId now).map fun result =>
    ⟨result.2.isSome, result.1, result.2.toList⟩

/-- The order is gone from its level, and the level with its last order.  Everything else
stands where it stood. -/
structure TakenOut (id : OrderID) (book book' : OrderBook P) : Prop where
  symbol : book'.symbol = book.symbol
  sides : ∀ side, book'.sideMap side =
    ((book.sideMap side).map fun l => (l.1, l.2.filter fun ptr => ptr ≠ id)).filter
      fun l => !l.2.isEmpty

structure CancelExact [LT P] [DecidableLT P] (manager : OrderManager P) (book : OrderBook P) :
    Prop where
  found : ∀ id now, book.Contains id → ∃ order book',
    manager.orderMap id = some order ∧ order.coreOrderId = id ∧ TakenOut id book book' ∧
      book.cancelCall manager id now = some ⟨true, book', [book.refresh .delete order now]⟩
  notFound : ∀ id now, ¬book.Contains id →
    book.cancelCall manager id now = some ⟨false, book, []⟩
  restores : ∀ order now, manager.orderMap order.coreOrderId = some order →
    ¬book.Contains order.coreOrderId → ∃ book' added,
      book.insertOrder manager order.coreOrderId = some (book', added) ∧
        book'.cancelCall manager order.coreOrderId now =
          some ⟨true, book, [book.refresh .delete order now]⟩
  commutes : ∀ id id' now now', id ≠ id' → ∃ first second first' second',
    book.cancelCall manager id now = some first ∧
      first.book.cancelCall manager id' now' = some second ∧
      book.cancelCall manager id' now' = some first' ∧
      first'.book.cancelCall manager id now = some second' ∧
      second.book = second'.book ∧
      first.returned = second'.returned ∧ first.published = second'.published ∧
      second.returned = first'.returned ∧ second.published = first'.published

section Taken

variable {manager : OrderManager P} {book : OrderBook P}

theorem takenOut_without (book : OrderBook P) (id : OrderID) :
    TakenOut id book (book.without id) where
  symbol := rfl
  sides := by
    intro side
    rw [OrderBook.sideMap_without, Levels.prune_eq_filter_map]

theorem OrderBook.without_comm (book : OrderBook P) (id id' : OrderID) :
    (book.without id).without id' = (book.without id').without id := by
  apply OrderBook.ext_sideMap
  · rfl
  · intro side
    simp only [OrderBook.sideMap_without]
    exact Levels.prune_comm _

theorem SideStored.prune {side : OrderSide} {map : PriceMap P} (h : SideStored manager side map)
    (keep : OrderPtr → Bool) : SideStored manager side (Levels.prune keep map) where
  noEmpty := Levels.noEmpty_prune map
  stored := by
    intro ptr hptr
    rw [Levels.queue_prune] at hptr
    exact h.stored ptr (List.mem_of_mem_filter hptr)
  nodup := by
    rw [Levels.queue_prune]
    exact h.nodup.filter _

theorem BookStored.without (h : BookStored manager book) (id : OrderID) :
    BookStored manager (book.without id) := by
  intro side
  rw [OrderBook.sideMap_without]
  exact (h side).prune _

theorem BookStored.without_eq_self (h : BookStored manager book) {id : OrderID}
    (hid : ¬book.Contains id) : book.without id = book := by
  apply OrderBook.ext_sideMap
  · rfl
  · intro side
    rw [OrderBook.sideMap_without]
    exact (h side).prune_eq_self fun hmem => hid (OrderBook.contains_iff.mpr ⟨side, hmem⟩)

theorem BookStored.order_of_contains (h : BookStored manager book) {id : OrderID}
    (hid : book.Contains id) :
    ∃ order, manager.orderMap id = some order ∧ order.coreOrderId = id := by
  obtain ⟨side, hside⟩ := OrderBook.contains_iff.mp hid
  obtain ⟨order, horder, heq, _⟩ := (h side).stored id hside
  exact ⟨order, horder, heq⟩

/-- The whole call, from what the two loops do. -/
theorem BookStored.cancelCall_eq (h : BookStored manager book) (id : OrderID) (now : Timestamp) :
    book.cancelCall manager id now = some ⟨decide (book.Contains id), book.without id,
      if book.Contains id then
        ((manager.orderMap id).map fun order => book.refresh .delete order now).toList
      else []⟩ := by
  rw [OrderBook.cancelCall, h.cancelOrder_eq, Option.map_some]
  by_cases hid : book.Contains id
  · obtain ⟨order, horder, _⟩ := h.order_of_contains hid
    simp [hid, horder]
  · simp [hid]

theorem BookStored.cancelCall_found (h : BookStored manager book) {id : OrderID}
    (hid : book.Contains id) {order : Order P} (horder : manager.orderMap id = some order)
    (now : Timestamp) : book.cancelCall manager id now =
      some ⟨true, book.without id, [book.refresh .delete order now]⟩ := by
  rw [h.cancelCall_eq, if_pos hid, horder, decide_eq_true hid]
  rfl

theorem BookStored.cancelCall_notFound (h : BookStored manager book) {id : OrderID}
    (hid : ¬book.Contains id) (now : Timestamp) :
    book.cancelCall manager id now = some ⟨false, book, []⟩ := by
  rw [h.cancelCall_eq, if_neg hid, decide_eq_false hid, h.without_eq_self hid]

/-- What a call answers and publishes for one order does not depend on the others. -/
theorem BookStored.cancelCall_without (h : BookStored manager book) {id id' : OrderID}
    (hne : id ≠ id') (now : Timestamp) : ∃ call call',
      book.cancelCall manager id now = some call ∧
        (book.without id').cancelCall manager id now = some call' ∧
        call.book = book.without id ∧ call'.book = (book.without id').without id ∧
        call.returned = call'.returned ∧ call.published = call'.published := by
  have hcontains : (book.without id').Contains id ↔ book.Contains id :=
    OrderBook.contains_without.trans (and_iff_right hne)
  refine ⟨_, _, h.cancelCall_eq id now, (h.without id').cancelCall_eq id now, rfl, rfl, ?_, ?_⟩
  · exact decide_eq_decide.mpr hcontains.symm
  · simp only [hcontains]
    rfl

end Taken

section Inserted

variable [LT P] [DecidableLT P] {manager : OrderManager P} {book : OrderBook P} {order : Order P}

theorem BookStored.push (h : BookStored manager book)
    (horder : manager.orderMap order.coreOrderId = some order)
    (hnot : ¬book.Contains order.coreOrderId) : BookStored manager (book.push order) := by
  intro side
  rw [OrderBook.push, OrderBook.sideMap_setSideMap]
  split_ifs with hside
  · subst hside
    refine ⟨Levels.noEmpty_pushBack _ _ _ (h order.side).noEmpty, fun ptr hptr => ?_,
      (Levels.nodup_queue_pushBack _ _ _).mpr ⟨fun hmem => ?_, (h order.side).nodup⟩⟩
    · rcases (Levels.mem_queue_pushBack _ _ _).mp hptr with rfl | hptr
      · exact ⟨order, horder, rfl, rfl⟩
      · exact (h order.side).stored ptr hptr
    · exact hnot (OrderBook.contains_iff.mpr ⟨_, hmem⟩)
  · exact h side

theorem BookStored.without_push (h : BookStored manager book)
    (hnot : ¬book.Contains order.coreOrderId) :
    (book.push order).without order.coreOrderId = book := by
  apply OrderBook.ext_sideMap
  · exact OrderBook.symbol_setSideMap book order.side _
  · intro side
    have hfresh : order.coreOrderId ∉ Levels.queue (book.sideMap side) := fun hmem =>
      hnot (OrderBook.contains_iff.mpr ⟨side, hmem⟩)
    rw [OrderBook.sideMap_without, OrderBook.push, OrderBook.sideMap_setSideMap]
    split_ifs with hside
    · subst hside
      exact Levels.prune_pushBack _ _ (h order.side).noEmpty hfresh
    · exact (h side).prune_eq_self hfresh

theorem cancel_exact (h : BookStored manager book) : CancelExact manager book where
  found := by
    intro id now hid
    obtain ⟨order, horder, heq⟩ := h.order_of_contains hid
    exact ⟨order, book.without id, horder, heq, takenOut_without book id,
      h.cancelCall_found hid horder now⟩
  notFound := fun id now hid => h.cancelCall_notFound hid now
  restores := by
    intro order now horder hnot
    have hcontains : (book.push order).Contains order.coreOrderId :=
      OrderBook.contains_push.mpr (Or.inl rfl)
    have hrefresh : (book.push order).refresh .delete order now =
        book.refresh .delete order now := by
      rw [OrderBook.refresh, OrderBook.refresh, OrderBook.push, OrderBook.symbol_setSideMap]
    refine ⟨_, _, insertOrder_eq horder, ?_⟩
    rw [(h.push horder hnot).cancelCall_found hcontains horder, h.without_push hnot, hrefresh]
  commutes := by
    intro id id' now now' hne
    obtain ⟨first, second', hfirst, hsecond', hbook, hbook', hreturned, hpublished⟩ :=
      h.cancelCall_without hne now
    obtain ⟨first', second, hfirst', hsecond, hbookOther, hbookOther', hreturned', hpublished'⟩ :=
      h.cancelCall_without hne.symm now'
    refine ⟨first, second, first', second', hfirst, hbook ▸ hsecond, hfirst',
      hbookOther ▸ hsecond', ?_, hreturned, hpublished, hreturned'.symm, hpublished'.symm⟩
    rw [hbook', hbookOther']
    exact OrderBook.without_comm book id id'

end Inserted

namespace CancelSample

/-- Two buys at one price and a sell. -/
def order (id : OrderID) (side : OrderSide) (price : ℕ) : Order ℕ :=
  .create "S" id .eurusd "1" "S1" side .limit .day 5 price 0

def manager : OrderManager ℕ :=
  ((OrderManager.empty.write 1 (order 1 .buy 9)).write 2 (order 2 .buy 9)).write 3
    (order 3 .sell 10)

def resting : OrderBook ℕ := ⟨.eurusd, [(9, [1, 2])], [(10, [3])]⟩

theorem bookStored : BookStored manager resting := by
  rintro (_ | _)
  · refine ⟨by simp [resting, OrderBook.sideMap, Levels.NoEmpty], ?_, by decide⟩
    simp only [resting, OrderBook.sideMap, Levels.queue_cons, Levels.queue_nil, List.append_nil,
      List.forall_mem_cons, List.not_mem_nil, false_imp_iff, implies_true, and_true]
    exact ⟨⟨order 1 .buy 9, rfl, rfl, rfl⟩, ⟨order 2 .buy 9, rfl, rfl, rfl⟩⟩
  · refine ⟨by simp [resting, OrderBook.sideMap, Levels.NoEmpty], ?_, by decide⟩
    simp only [resting, OrderBook.sideMap, Levels.queue_cons, Levels.queue_nil, List.append_nil,
      List.forall_mem_cons, List.not_mem_nil, false_imp_iff, implies_true, and_true]
    exact ⟨order 3 .sell 10, rfl, rfl, rfl⟩

end CancelSample

theorem cancel_exact_sample : CancelExact CancelSample.manager CancelSample.resting :=
  cancel_exact CancelSample.bookStored

end BetaTrader
