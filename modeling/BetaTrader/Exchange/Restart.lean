import BetaTrader.Exchange.OrderTable
import BetaTrader.Exchange.Registration
import BetaTrader.Exchange.TradingCoreSpec

/-!
# Restarting a partition

A new partition loads the open rows of the orders table, and inserts them into
its book in the order in which it meets them in the `unordered_map`.  The table
knows nothing of the queues: a level comes back for certain only if it holds one
order, and the quantity of an order only if all its fills have been booked.
-/

namespace BetaTrader

variable {P : Type}

/-! ## Loading the rows -/

namespace OrderRow

/-- What `loadOrdersForInstrument` selects. -/
def IsOpen (symbol : Instrument) (row : OrderRow P) : Prop :=
  row.symbol = symbol ∧ (row.status = .new ∨ row.status = .partiallyFilled)

instance (symbol : Instrument) (row : OrderRow P) : Decidable (row.IsOpen symbol) :=
  inferInstanceAs (Decidable (_ ∧ _))

/-- The order made from a row whose price is a number. -/
def restored (row : OrderRow P) : Order P :=
  let order := Order.create (cString row.clientOrderId) row.coreOrderId.toUInt64 row.symbol
    (cString row.clientId) (cString row.senderCompId) row.side row.type row.timeInForce
    row.originalQuantity.toUInt64 row.price row.timestamp
  (order.setRemainingQuantity row.remainingQuantity.toUInt64).setStatus row.status

theorem toOrder_eq_restored {row : OrderRow Double} (h : row.price ≠ .nan) :
    row.toOrder = row.restored := by
  have hprice : storedPrice row.price = row.price := by
    cases hrow : row.price with
    | nan => exact (h hrow).elim
    | _ => rfl
  rw [toOrder, hprice, restored]

theorem restored_coreOrderId_eq_iff {row : OrderRow P} {id : OrderID} :
    row.restored.coreOrderId = id ↔ row.coreOrderId = id.toInt64 := by
  have hid : row.restored.coreOrderId = row.coreOrderId.toUInt64 := rfl
  rw [hid]
  constructor
  · rintro rfl
    simp
  · intro h
    simp [h]

end OrderRow

namespace OrderTable

/-- The rows that a partition loads. -/
def openRows (table : OrderTable P) (symbol : Instrument) : OrderTable P :=
  table.filter fun row => row.IsOpen symbol

theorem loadOrdersForInstrument_eq {table : OrderTable Double}
    (h : ∀ row ∈ table, row.price ≠ .nan) (symbol : Instrument) :
    table.loadOrdersForInstrument symbol = (table.openRows symbol).map OrderRow.restored := by
  refine List.map_congr_left fun row hrow => OrderRow.toOrder_eq_restored (h row ?_)
  exact (List.mem_filter.mp hrow).1

theorem lookup_openRows {table : OrderTable P} (hnodup : (table.map OrderRow.coreOrderId).Nodup)
    (symbol : Instrument) (id : OrderID) :
    (table.openRows symbol).lookup id = (table.lookup id).filter fun row => row.IsOpen symbol := by
  have hopen : ((table.openRows symbol).map OrderRow.coreOrderId).Nodup :=
    hnodup.sublist (List.filter_sublist.map _)
  cases hlookup : table.lookup id with
  | none =>
      refine List.find?_eq_none.mpr fun row hrow => ?_
      exact List.find?_eq_none.mp hlookup row (List.mem_filter.mp hrow).1
  | some row =>
      have hid := coreOrderId_of_lookup hlookup
      by_cases hrow : row.IsOpen symbol
      · have hmem : row ∈ table.openRows symbol :=
          List.mem_filter.mpr ⟨List.mem_of_find?_eq_some hlookup, decide_eq_true hrow⟩
        rw [lookup_of_mem hopen hmem hid, Option.filter_some_pos (by simpa using hrow)]
      · rw [Option.filter_some_neg (by simpa using hrow)]
        refine List.find?_eq_none.mpr fun row' hrow' hkey => hrow ?_
        obtain ⟨hmem, hopen'⟩ := List.mem_filter.mp hrow'
        have hlookup' := lookup_of_mem hnodup hmem (of_decide_eq_true hkey)
        rw [Option.some.inj (hlookup.symm.trans hlookup')]
        exact of_decide_eq_true hopen'

end OrderTable

namespace OrderManager

theorem addOrder_orderMap (manager : OrderManager P) (order : Order P) (id : OrderID) :
    (manager.addOrder order).2.orderMap id =
      (manager.orderMap id).or (if order.coreOrderId = id then some order else none) := by
  by_cases hid : order.coreOrderId = id
  · subst hid
    cases horder : manager.orderMap order.coreOrderId with
    | none => simp [addOrder_eq horder]
    | some old => simp [addOrder, containsOrderById, horder]
  · rw [if_neg hid, Option.or_none, addOrder]
    split_ifs
    · rfl
    · exact Function.update_of_ne (Ne.symm hid) _ _

/-- The first order with an id is the one that is kept. -/
theorem foldl_addOrder_orderMap (manager : OrderManager P) (orders : List (Order P))
    (id : OrderID) :
    (orders.foldl (fun manager order => (manager.addOrder order).2) manager).orderMap id =
      (manager.orderMap id).or (orders.find? fun order => order.coreOrderId = id) := by
  induction orders generalizing manager with
  | nil => simp
  | cons order orders ih =>
      rw [List.foldl_cons, ih, addOrder_orderMap, Option.or_assoc, List.find?_cons]
      by_cases hid : order.coreOrderId = id <;> simp [hid]

end OrderManager

/-! ## Filling a book -/

namespace OrderBook

section Pushes

variable [FinitePrice P] {book book' : OrderBook P} {order : Order P} {orders : List (Order P)}
  {side : OrderSide} {price : P}

/-- The levels stand in price order, and none is empty. -/
structure Ordered (book : OrderBook P) : Prop where
  sorted : ∀ side, Levels.Sorted side.before (book.sideMap side)
  noEmpty : ∀ side, Levels.NoEmpty (book.sideMap side)

/-- A book is determined by its queues. -/
theorem Ordered.ext_level (h : book.Ordered) (h' : book'.Ordered)
    (hsymbol : book.symbol = book'.symbol)
    (heq : ∀ side price, Levels.level price (book.sideMap side) =
      Levels.level price (book'.sideMap side)) : book = book' :=
  ext_sideMap hsymbol fun side =>
    Levels.ext_level (h.sorted side) (h'.sorted side) (h.noEmpty side) (h'.noEmpty side) (heq side)

theorem ordered_empty (symbol : Instrument) : (empty symbol : OrderBook P).Ordered := by
  constructor <;> intro side <;> rw [empty_sideMap]
  · exact List.Pairwise.nil
  · exact Levels.noEmpty_nil

theorem Ordered.push (h : book.Ordered) (order : Order P) : (book.push order).Ordered := by
  constructor <;> intro side <;> rw [OrderBook.push, sideMap_setSideMap] <;> split_ifs
  · subst side
    exact Levels.sorted_pushBack _ _ _ (h.sorted _)
  · exact h.sorted side
  · exact Levels.noEmpty_pushBack _ _ _ (h.noEmpty _)
  · exact h.noEmpty side

theorem level_push (h : book.Ordered) (order : Order P) (side : OrderSide) (price : P) :
    Levels.level price ((book.push order).sideMap side) =
      Levels.level price (book.sideMap side) ++
        if order.side = side ∧ order.price = price then [order.coreOrderId] else [] := by
  rw [OrderBook.push, sideMap_setSideMap]
  by_cases hside : side = order.side
  · subst hside
    rw [if_pos rfl, Levels.level_pushBack (h.sorted _)]
    simp [eq_comm]
  · simp [hside, Ne.symm hside]

/-- Orders that come in one after another stand in the queues in this order. -/
theorem foldl_push (h : book.Ordered) (orders : List (Order P)) :
    (orders.foldl OrderBook.push book).Ordered ∧
      (orders.foldl OrderBook.push book).symbol = book.symbol ∧
      ∀ side price, Levels.level price ((orders.foldl OrderBook.push book).sideMap side) =
        Levels.level price (book.sideMap side) ++
          (orders.filter fun order => order.side = side ∧ order.price = price).map
            Order.coreOrderId := by
  induction orders generalizing book with
  | nil => exact ⟨h, rfl, fun side price => by simp⟩
  | cons order orders ih =>
      obtain ⟨hordered, hsymbol, hlevel⟩ := ih (h.push order)
      refine ⟨hordered, hsymbol.trans (symbol_setSideMap _ _ _), fun side price => ?_⟩
      rw [List.foldl_cons, hlevel, level_push h, List.append_assoc, List.filter_cons]
      by_cases hplace : order.side = side ∧ order.price = price <;> simp [hplace]

end Pushes

end OrderBook

/-- `submitCommand` hands an order to the partition of its symbol. -/
def Command.RoutedTo (symbol : Instrument) : Command P → Prop
  | .newOrder cmd => cmd.order.symbol = symbol
  | _ => True

instance (symbol : Instrument) (cmd : Command P) : Decidable (cmd.RoutedTo symbol) :=
  match cmd with
  | .newOrder cmd => inferInstanceAs (Decidable (cmd.order.symbol = symbol))
  | .cancelOrder _ => inferInstanceAs (Decidable True)
  | .modifyOrder _ => inferInstanceAs (Decidable True)

namespace Partition

open Matcher

/-- The orders that a new partition loads once the queued tasks are done. -/
def loaded (s : Partition P) : List (Order P) :=
  (s.table.openRows s.orderBook.symbol).map OrderRow.restored

/-- The order manager of the new partition. -/
def revived (s : Partition P) : OrderManager P :=
  s.loaded.foldl (fun manager order => (manager.addOrder order).2) .empty

section Loaded

variable {s : Partition P} {id : OrderID}

theorem revived_orderMap : s.revived.orderMap id =
    ((s.table.lookup id).filter fun row => row.IsOpen s.orderBook.symbol).map
      OrderRow.restored := by
  have hkey : ((fun order : Order P => decide (order.coreOrderId = id)) ∘ OrderRow.restored) =
      fun row => decide (row.coreOrderId = id.toInt64) := by
    funext row
    exact decide_eq_decide.mpr OrderRow.restored_coreOrderId_eq_iff
  rw [revived, OrderManager.foldl_addOrder_orderMap, loaded, List.find?_map, hkey,
    ← OrderTable.lookup_openRows s.nodup_table, OrderTable.lookup]
  rfl

theorem revived_addressed (s : Partition P) : s.revived.Addressed := by
  intro id order horder
  rw [revived_orderMap] at horder
  obtain ⟨row, hrow, rfl⟩ := Option.map_eq_some_iff.mp horder
  rw [OrderRow.restored_coreOrderId_eq_iff]
  exact OrderTable.coreOrderId_of_lookup (Option.filter_eq_some_iff.mp hrow).1

theorem mem_loaded_ids :
    id ∈ s.loaded.map Order.coreOrderId ↔ ∃ order, s.revived.orderMap id = some order := by
  rw [revived, ← Option.isSome_iff_exists, OrderManager.foldl_addOrder_orderMap]
  simp

theorem nodup_loaded_ids (s : Partition P) : (s.loaded.map Order.coreOrderId).Nodup := by
  have hkeys : (s.loaded.map Order.coreOrderId).map UInt64.toInt64 =
      (s.table.openRows s.orderBook.symbol).map OrderRow.coreOrderId := by
    rw [loaded, List.map_map, List.map_map]
    refine List.map_congr_left fun row _ => ?_
    simp [OrderRow.restored, Order.create]
  refine List.Nodup.of_map UInt64.toInt64 ?_
  rw [hkeys]
  exact s.nodup_table.sublist (List.filter_sublist.map _)

end Loaded

section Started

variable [PriceArith P] {s : Partition P}

/-- The loop passes over an id that is not registered. -/
theorem startWith_cons_of_none {id : OrderID} (h : s.orderManager.orderMap id = none)
    (iteration : List OrderID) : s.startWith (id :: iteration) = s.startWith iteration := by
  have hinsert : s.insertInBook id = none := by
    simp [insertInBook, OrderBook.insertOrder, OrderManager.deref, h]
  rw [startWith, List.foldl_cons, hinsert, Option.getD_none, ← startWith]

theorem startWith_cons {order : Order P}
    (h : s.orderManager.orderMap order.coreOrderId = some order) (iteration : List OrderID) :
    s.startWith (order.coreOrderId :: iteration) = (s.inserted order).startWith iteration := by
  rw [startWith, List.foldl_cons, insertInBook_eq h, Option.getD_some, ← startWith]

end Started

theorem startWith_orderBook [PriceArith P] {s : Partition P} (h : s.orderManager.Addressed)
    (iteration : List OrderID) : (s.startWith iteration).orderBook =
      (restingOrders s.orderManager iteration).foldl OrderBook.push s.orderBook := by
  induction iteration generalizing s with
  | nil => rfl
  | cons id iteration ih =>
      cases horder : s.orderManager.orderMap id with
      | none =>
          have hskip : restingOrders s.orderManager (id :: iteration) =
              restingOrders s.orderManager iteration := by simp [restingOrders, horder]
          rw [startWith_cons_of_none horder, ih h, hskip]
      | some order =>
          obtain rfl := h id order horder
          have hinserted : (s.inserted order).orderManager.Addressed := h
          rw [startWith_cons horder, ih hinserted, restingOrders_cons horder]
          rfl

section Restarted

variable [FinitePrice P]

/-- A new partition on the same database, started. -/
def restarted (s : Partition P) (tradeId : TradeID) (iteration : List OrderID) : Partition P :=
  ((init s.orderBook.symbol tradeId).load s.loaded).startWith iteration

/-- In whatever order the `unordered_map` is iterated, the new book is the old
one, and its orders have as much open as they had. -/
def Restores (s : Partition P) : Prop :=
  ∀ tradeId iteration, iteration.Perm (s.loaded.map Order.coreOrderId) →
    (s.restarted tradeId iteration).orderBook = s.orderBook ∧
      ∀ id, s.orderBook.Contains id → ∃ order order',
        s.orderManager.orderMap id = some order ∧
        (s.restarted tradeId iteration).orderManager.orderMap id = some order' ∧
        order'.side = order.side ∧ order'.price = order.price ∧
        order'.remainingQuantity = order.remainingQuantity

variable {s : Partition P} {tradeId : TradeID} {iteration : List OrderID} {id : OrderID}
  {side : OrderSide} {price : P}

theorem restarted_orderManager : (s.restarted tradeId iteration).orderManager = s.revived :=
  startWith_orderManager _ _

theorem restarted_orderBook : (s.restarted tradeId iteration).orderBook =
    (restingOrders s.revived iteration).foldl OrderBook.push (.empty s.orderBook.symbol) :=
  startWith_orderBook s.revived_addressed iteration

/-- Does the order with this id rest at this place in the new book? -/
def placed (s : Partition P) (side : OrderSide) (price : P) (id : OrderID) : Bool :=
  (s.revived.orderMap id).any fun order => order.side = side ∧ order.price = price

theorem placed_iff : s.placed side price id = true ↔
    ∃ order, s.revived.orderMap id = some order ∧ order.side = side ∧ order.price = price := by
  simp [placed, Option.any_eq_true]

/-- The new book has its queues in the order of the iteration. -/
theorem restarted_level :
    Levels.level price ((s.restarted tradeId iteration).orderBook.sideMap side) =
      iteration.filter (s.placed side price) := by
  rw [restarted_orderBook, (OrderBook.foldl_push (OrderBook.ordered_empty _) _).2.2 side price,
    OrderBook.empty_sideMap, Levels.level_nil, List.nil_append]
  induction iteration with
  | nil => rfl
  | cons id iteration ih =>
      rw [List.filter_cons, ← ih]
      cases horder : s.revived.orderMap id with
      | none => simp [restingOrders, placed, horder]
      | some order =>
          obtain rfl := s.revived_addressed id order horder
          rw [restingOrders_cons horder, List.filter_cons]
          by_cases hplace : order.side = side ∧ order.price = price <;>
            simp [placed, horder, hplace]

/-- Every loaded order gets into the new book. -/
theorem contains_restarted (tradeId : TradeID)
    (hperm : iteration.Perm (s.loaded.map Order.coreOrderId)) {order : Order P}
    (horder : s.revived.orderMap id = some order) :
    (s.restarted tradeId iteration).orderBook.Contains id := by
  have hlevel : id ∈ Levels.level order.price
      ((s.restarted tradeId iteration).orderBook.sideMap order.side) := by
    rw [restarted_level, List.mem_filter, hperm.mem_iff, mem_loaded_ids, placed_iff]
    exact ⟨⟨order, horder⟩, order, horder, rfl, rfl⟩
  exact OrderBook.contains_iff.mpr ⟨_, Levels.level_sublist.subset hlevel⟩

/-! ## When the book comes back -/

/-- The order is registered, and it is in the book. -/
def Rested (s : Partition P) (order : Order P) : Prop :=
  s.orderBook.Contains order.coreOrderId ∧
    s.orderManager.orderMap order.coreOrderId = some order

/-- No two orders rest at one price of a side. -/
def Alone (s : Partition P) : Prop :=
  ∀ order other, s.Rested order → s.Rested other → order.side = other.side →
    order.price = other.price → order.coreOrderId = other.coreOrderId

/-- What every run keeps: the partition has orders of its own symbol only, and
the status of an order with something open says so. -/
structure Kept (symbol : Instrument) (s : Partition P) : Prop where
  book : s.orderBook.symbol = symbol
  orders : ∀ id order, s.orderManager.orderMap id = some order → order.symbol = symbol ∧
    (0 < order.openQuantity → order.status = .new ∨ order.status = .partiallyFilled)

/-- The row has what a new book needs to know of the order. -/
structure Recovers (row : OrderRow P) (order : Order P) : Prop where
  shows : row.Shows order
  symbol : row.symbol = order.symbol
  side : row.side = order.side

/-- The table knows the resting orders, and no two of them queue. -/
structure Restorable (s : Partition P) : Prop where
  rows : ∀ id, Option.Rel Recovers (s.table.lookup id) (s.orderManager.orderMap id)
  resting : ∀ id order, s.orderManager.orderMap id = some order →
    s.orderBook.Contains id ∧ 0 < order.remainingQuantity
  alone : s.Alone

variable {ids : List OrderID} {symbol : Instrument}

theorem Invariant.ordered (hinv : s.Invariant ids) : s.orderBook.Ordered :=
  ⟨fun side => (hinv.book side).sorted, fun side => (hinv.book side).noEmpty⟩

theorem mem_level (hinv : s.Invariant ids) :
    id ∈ Levels.level price (s.orderBook.sideMap side) ↔
      ∃ order, s.Rested order ∧ order.coreOrderId = id ∧ order.side = side ∧
        order.price = price := by
  rw [Levels.mem_level]
  constructor
  · rintro ⟨l, hl, rfl, hid⟩
    obtain ⟨order, horder, rfl, hside, hprice, _⟩ := (hinv.book side).rests l hl id hid
    have hcontains : s.orderBook.Contains order.coreOrderId :=
      OrderBook.contains_iff.mpr ⟨side, Levels.mem_queue.mpr ⟨l, hl, hid⟩⟩
    exact ⟨order, ⟨hcontains, horder⟩, rfl, hside, hprice⟩
  · rintro ⟨order, ⟨hcontains, horder⟩, rfl, rfl, rfl⟩
    obtain ⟨order', horder', _, _, hmem⟩ := hinv.book.sound.contains_orderMap hcontains
    obtain rfl := Option.some.inj (horder.symm.trans horder')
    obtain ⟨l, hl, hid⟩ := Levels.mem_queue.mp hmem
    obtain ⟨order', horder', _, _, hprice, _⟩ := (hinv.book _).rests l hl _ hid
    obtain rfl := Option.some.inj (horder.symm.trans horder')
    exact ⟨l, hl, hprice.symm, hid⟩

theorem nodup_level (hinv : s.Invariant ids) (side : OrderSide) (price : P) :
    (Levels.level price (s.orderBook.sideMap side)).Nodup :=
  (hinv.book side).nodup.sublist Levels.level_sublist

/-- The iteration may go either way through the orders of a price. -/
theorem alone_of_restores (hinv : s.Invariant ids) (h : s.Restores) : s.Alone := by
  intro order other horder hother hside hprice
  have hlevel : ∀ iteration : List OrderID, iteration.Perm (s.loaded.map Order.coreOrderId) →
      Levels.level order.price (s.orderBook.sideMap order.side) =
        iteration.filter (s.placed order.side order.price) := by
    intro iteration hperm
    rw [← restarted_level, (h 0 iteration hperm).1]
  have hreverse : (Levels.level order.price (s.orderBook.sideMap order.side)).reverse =
      Levels.level order.price (s.orderBook.sideMap order.side) := by
    rw [hlevel _ (List.Perm.refl _), ← List.filter_reverse, ← hlevel _ (List.reverse_perm _),
      hlevel _ (List.Perm.refl _)]
  apply Lists.eq_of_mem_of_reverse_eq (nodup_level hinv _ _) hreverse
  · exact (mem_level hinv).mpr ⟨order, horder, rfl, rfl, rfl⟩
  · exact (mem_level hinv).mpr ⟨other, hother, rfl, hside.symm, hprice.symm⟩

omit [FinitePrice P] in
theorem Recovers.isOpen {row : OrderRow P} {order : Order P} (h : Recovers row order)
    (hkept : s.Kept symbol) (horder : s.orderManager.orderMap id = some order)
    (hopen : 0 < order.openQuantity) : row.IsOpen s.orderBook.symbol := by
  obtain ⟨hsymbol, hstatus⟩ := hkept.orders id order horder
  refine ⟨?_, ?_⟩
  · rw [h.symbol, hsymbol, hkept.book]
  · rw [h.shows.status]
    exact hstatus hopen

omit [FinitePrice P] in
/-- An order that the table knows comes back with what it has open. -/
theorem revived_of_recovers {row : OrderRow P} {order : Order P} (h : Recovers row order)
    (hlookup : s.table.lookup id = some row) (hopen : row.IsOpen s.orderBook.symbol) :
    ∃ order', s.revived.orderMap id = some order' ∧ order'.side = order.side ∧
      order'.price = order.price ∧ order'.remainingQuantity = order.remainingQuantity := by
  refine ⟨row.restored, ?_, h.side, h.shows.price, ?_⟩
  · rw [revived_orderMap, hlookup, Option.filter_some_pos (by simpa using hopen)]
    rfl
  · have hremaining : row.restored.remainingQuantity = row.remainingQuantity.toUInt64 := rfl
    rw [hremaining, h.shows.remainingQuantity]
    simp

omit [FinitePrice P] in
theorem Restorable.revived (h : s.Restorable) (hkept : s.Kept symbol) (id : OrderID) :
    (s.orderManager.orderMap id = none ∧ s.revived.orderMap id = none) ∨
      ∃ order order', s.orderManager.orderMap id = some order ∧
        s.revived.orderMap id = some order' ∧ order'.side = order.side ∧
        order'.price = order.price ∧ order'.remainingQuantity = order.remainingQuantity := by
  have hrow := h.rows id
  cases horder : s.orderManager.orderMap id with
  | none =>
      refine Or.inl ⟨rfl, ?_⟩
      rw [horder] at hrow
      cases hlookup : s.table.lookup id with
      | none => rw [revived_orderMap, hlookup]; rfl
      | some row => rw [hlookup] at hrow; cases hrow
  | some order =>
      rw [horder] at hrow
      obtain ⟨row, hlookup, hrecovers⟩ := Lists.exists_of_rel_some hrow
      have hpos := Order.remainingQuantity_pos_iff.mp (h.resting id order horder).2
      obtain ⟨order', hrevived⟩ :=
        revived_of_recovers hrecovers hlookup (hrecovers.isOpen hkept horder hpos)
      exact Or.inr ⟨order, order', rfl, hrevived⟩

theorem Restorable.restores (h : s.Restorable) (hkept : s.Kept symbol) (hinv : s.Invariant ids) :
    s.Restores := by
  intro tradeId iteration hperm
  obtain ⟨hordered, hsymbol, _⟩ := OrderBook.foldl_push
    (OrderBook.ordered_empty (P := P) s.orderBook.symbol) (restingOrders s.revived iteration)
  have hbook : (s.restarted tradeId iteration).orderBook = _ := restarted_orderBook
  rw [← hbook] at hordered hsymbol
  refine ⟨hordered.ext_level hinv.ordered hsymbol fun side price => ?_, fun id hid => ?_⟩
  · have hnodup : iteration.Nodup := hperm.nodup_iff.mpr s.nodup_loaded_ids
    rw [restarted_level]
    refine Lists.eq_of_mem_iff (hnodup.filter _) (nodup_level hinv side price) (fun id => ?_) ?_
    · rw [List.mem_filter, hperm.mem_iff, mem_loaded_ids, placed_iff, mem_level hinv]
      rcases h.revived hkept id with ⟨hnone, hgone⟩ | ⟨order, order', horder, hrevived, hplace⟩
      · refine iff_of_false ?_ ?_
        · rintro ⟨⟨_, horder⟩, _⟩
          simp [hgone] at horder
        · rintro ⟨order, ⟨_, horder⟩, rfl, _⟩
          simp [hnone] at horder
      · obtain ⟨hside, hprice, _⟩ := hplace
        obtain rfl := (hinv.managed id order horder).1
        have hrested : s.Rested order := ⟨(h.resting _ order horder).1, horder⟩
        constructor
        · rintro ⟨_, revived, heq, rfl, rfl⟩
          obtain rfl := Option.some.inj (hrevived.symm.trans heq)
          exact ⟨order, hrested, rfl, hside.symm, hprice.symm⟩
        · rintro ⟨other, ⟨_, hother⟩, heq, rfl, rfl⟩
          rw [heq] at hother
          obtain rfl := Option.some.inj (horder.symm.trans hother)
          exact ⟨⟨order', hrevived⟩, order', hrevived, hside, hprice⟩
    · intro id hid id' hid'
      obtain ⟨order, horder, rfl, rfl, rfl⟩ := (mem_level hinv).mp hid
      obtain ⟨other, hother, rfl, hside, hprice⟩ := (mem_level hinv).mp hid'
      exact h.alone order other horder hother hside.symm hprice.symm
  · rw [restarted_orderManager]
    rcases h.revived hkept id with ⟨hnone, _⟩ | hrevived
    · obtain ⟨order, horder, _⟩ := hinv.book.sound.contains_orderMap hid
      simp [hnone] at horder
    · exact hrevived

end Restarted

/-! ## What a command does to a later restart -/

section Steps

variable [FinitePrice P] {ids : List OrderID} {s s' : Partition P} {order : Order P}
  {cmd : Command P} {clock : Clock} {symbol : Instrument}

theorem executed_symbol (hinv : s.Sound ids) (hcmd : Admissible ids cmd)
    (h : s.incomingOrder cmd = some order) (clock : Clock) :
    (s.executed clock order cmd).orderBook.symbol = s.orderBook.symbol := by
  have hbook : (s.executed clock order cmd).orderBook = _ := afterAll_orderBook
  have hmatch := prepared_afterMatch_symbol hinv hcmd h clock
  rw [hbook]
  split_ifs
  · rw [OrderBook.push, OrderBook.symbol_setSideMap, hmatch]
  · exact hmatch

theorem served_place (order : Order P) : (s.served order).symbol = order.symbol ∧
    (s.served order).side = order.side ∧ (s.served order).price = order.price :=
  ⟨served_symbol, served_side, served_price⟩

theorem incoming_symbol (hinv : s.Sound ids) (hcmd : Admissible ids cmd)
    (hrouted : cmd.RoutedTo symbol) (hkept : s.Kept symbol)
    (h : s.incomingOrder cmd = some order) : order.symbol = symbol := by
  rcases incomingOrder_cases hinv hcmd h with
    ⟨c, rfl, rfl, _⟩ | ⟨c, old, rfl, rfl, _, hold, _⟩
  · exact hrouted
  · exact (hkept.orders _ old hold).1

theorem served_status_open (hinv : s.Sound ids) (hcmd : Admissible ids cmd)
    (h : s.incomingOrder cmd = some order) (hremains : s.Remains order) :
    (s.served order).status = .new ∨ (s.served order).status = .partiallyFilled := by
  by_cases hfills : s.fills order = []
  · have hopen : order.openQuantity ≠ 0 := by
      rw [← served_of_fills_nil hfills]
      exact hremains.1.ne'
    rw [served_of_fills_nil_limit hfills hremains.2 hopen]
    exact Or.inl (incomingOrder_quantity h).2
  · rw [served_status hinv hcmd h hfills, if_neg hremains.1.ne']
    exact Or.inr rfl

theorem kept_step (hinv : s.Invariant ids) (hcmd : Admissible ids cmd)
    (hrouted : cmd.RoutedTo symbol) (hkept : s.Kept symbol)
    (h : processCommand clock s cmd = some s') : s'.Kept symbol := by
  rcases processCommand_cases hinv.sound hcmd clock with
    ⟨_, _, _, _, _, heq⟩ | ⟨c, order, rfl, _, _, heq⟩ | ⟨order, hincoming, heq⟩
  · obtain rfl := Option.some.inj (heq.symm.trans h)
    exact ⟨hkept.book, hkept.orders⟩
  · obtain rfl := Option.some.inj (heq.symm.trans h)
    refine ⟨hkept.book, fun id order' horder' => hkept.orders id order' ?_⟩
    exact (OrderManager.orderMap_of_removeOrderById horder').2
  · obtain rfl := Option.some.inj (heq.symm.trans h)
    have hsymbol := incoming_symbol hinv.sound hcmd hrouted hkept hincoming
    refine ⟨(executed_symbol hinv.sound hcmd hincoming clock).trans hkept.book, ?_⟩
    intro id order' horder'
    rcases executed_registered hinv.sound hcmd hincoming clock horder' with
      ⟨_, hremains, rfl⟩ | ⟨_, hold⟩ | ⟨_, f, hf, hold, rfl⟩
    · exact ⟨(served_place order).1.trans hsymbol,
        fun _ => served_status_open hinv.sound hcmd hincoming hremains⟩
    · exact hkept.orders id order' hold
    · refine ⟨(hkept.orders id f.1 hold).1, fun hopen => Or.inr ?_⟩
      have hne : f.1.remainingQuantity - UInt64.ofNat f.2 ≠ 0 := fun hzero =>
        hopen.ne' (Order.remainingQuantity_eq_zero_iff.mp hzero)
      exact if_neg hne

/-- No order comes to rest at a price where another one of its side rests. -/
def JoinsNoLevel (s : Partition P) (cmd : Command P) : Prop :=
  ∀ order ∈ s.incomingOrder cmd, s.Remains order → ∀ other, s.Rested other →
    other.side = order.side → other.price = order.price →
      other.coreOrderId = order.coreOrderId

omit [FinitePrice P] in
/-- The rows of the booked fills keep the columns that no update names. -/
theorem settleRows_place {served : Order P} {id : OrderID} {fs : List (Order P × ℕ)}
    {row : Option (OrderRow P)} {row' : OrderRow P} (h : settleRows served id fs row = some row') :
    ∃ old, row = some old ∧ row'.symbol = old.symbol ∧ row'.side = old.side := by
  have hsettle : ∀ (order : Order P) (row : Option (OrderRow P)) (row' : OrderRow P),
      settleRow order row = some row' →
        ∃ old, row = some old ∧ row'.symbol = old.symbol ∧ row'.side = old.side := by
    intro order row row' hrow
    rw [settleRow] at hrow
    split_ifs at hrow
    obtain ⟨old, hold, rfl⟩ := Option.map_eq_some_iff.mp hrow
    exact ⟨old, hold, rfl, rfl⟩
  induction fs generalizing row with
  | nil => exact ⟨row', h, rfl, rfl⟩
  | cons f fs ih =>
      obtain ⟨next, hnext, hsymbol, hside⟩ := ih h
      dsimp only at hnext
      split_ifs at hnext
      · obtain ⟨old, hold, hsymbol', hside'⟩ := hsettle _ _ _ hnext
        exact ⟨old, hold, hsymbol.trans hsymbol', hside.trans hside'⟩
      · obtain ⟨old, hold, hsymbol', hside'⟩ := hsettle _ _ _ hnext
        exact ⟨old, hold, hsymbol.trans hsymbol', hside.trans hside'⟩
      · exact ⟨next, hnext, hsymbol, hside⟩

/-- The row of an order is about its side and its symbol. -/
theorem executed_row_place (hinv : s.Invariant ids) (hcmd : Admissible ids cmd)
    (h : s.incomingOrder cmd = some order) (clock : Clock) (hrestorable : s.Restorable)
    {id : OrderID} {row : OrderRow P} {order' : Order P}
    (hrow : (s.executed clock order cmd).table.lookup id = some row)
    (horder' : (s.executed clock order cmd).orderManager.orderMap id = some order') :
    row.symbol = order'.symbol ∧ row.side = order'.side := by
  have hnew : order.coreOrderId = id → (∃ c, cmd = .newOrder c) → s.table.lookup id = none := by
    rintro rfl ⟨c, rfl⟩
    have hrel := hrestorable.rows order.coreOrderId
    rcases incomingOrder_cases hinv.sound hcmd h with ⟨_, _, _, _, hnone, _⟩ | ⟨_, _, heq, _⟩
    · rw [hnone] at hrel
      cases hlookup : s.table.lookup order.coreOrderId with
      | none => rfl
      | some row => rw [hlookup] at hrel; cases hrel
    · cases heq
  rw [lookup_executed hinv hcmd h clock hnew] at hrow
  split_ifs at hrow with hkeeps hid
  · obtain ⟨old, hold, hsymbol, hside⟩ := settleRows_place hrow
    obtain rfl := Option.some.inj hold
    rw [← hid, executed_incoming hinv.sound hcmd h] at horder'
    split_ifs at horder'
    obtain rfl := Option.some.inj horder'
    obtain ⟨hsymbol', hside', _⟩ := served_place (s := s) order
    exact ⟨hsymbol.trans hsymbol'.symm, hside.trans hside'.symm⟩
  · obtain ⟨old, hold, hsymbol, hside⟩ := settleRows_place hrow
    have hrel := hrestorable.rows id
    rw [hold] at hrel
    obtain ⟨order₀, horder₀, hrecovers⟩ := Lists.exists_of_some_rel hrel
    rw [hsymbol, hside, hrecovers.symbol, hrecovers.side]
    rcases executed_registered hinv.sound hcmd h clock horder' with
      ⟨heq, _⟩ | ⟨_, hsame⟩ | ⟨_, f, _, hf, rfl⟩
    · exact (hid heq.symm).elim
    · obtain rfl := Option.some.inj (horder₀.symm.trans hsame)
      exact ⟨rfl, rfl⟩
    · obtain rfl := Option.some.inj (horder₀.symm.trans hf)
      exact ⟨rfl, rfl⟩

/-- An order that rests after the match is what is left of the incoming one, or
it has rested at the same place before. -/
theorem executed_rested (hinv : s.Invariant ids) (hcmd : Admissible ids cmd)
    (h : s.incomingOrder cmd = some order) (clock : Clock) {resting : Order P}
    (hresting : (s.executed clock order cmd).Rested resting) :
    (resting.coreOrderId = order.coreOrderId ∧ s.Remains order ∧ resting.side = order.side ∧
      resting.price = order.price) ∨
    ∃ old, s.Rested old ∧ old.coreOrderId = resting.coreOrderId ∧ old.side = resting.side ∧
      old.price = resting.price := by
  obtain ⟨hcontains, hget⟩ := hresting
  rw [executed_contains hinv.sound hcmd h] at hcontains
  rcases executed_registered hinv.sound hcmd h clock hget with
    ⟨hid, hremains, hserved⟩ | ⟨hid, hold⟩ | ⟨hid, f, hf, hold, hgiven⟩
  · obtain ⟨_, hside, hprice⟩ := served_place (s := s) order
    rw [hserved] at hid ⊢
    exact Or.inl ⟨hid, hremains, hside, hprice⟩
  · rw [if_neg hid] at hcontains
    exact Or.inr ⟨resting, ⟨hcontains.1, hold⟩, rfl, rfl, rfl⟩
  · rw [if_neg hid] at hcontains
    have hfid : f.1.coreOrderId = resting.coreOrderId := (hinv.managed _ _ hold).1
    have hplace : f.1.side = resting.side ∧ f.1.price = resting.price := by
      rw [hgiven]
      exact ⟨rfl, rfl⟩
    exact Or.inr ⟨f.1, ⟨hfid ▸ hcontains.1, hfid ▸ hold⟩, hfid, hplace.1, hplace.2⟩

theorem executed_alone (hinv : s.Invariant ids) (hcmd : Admissible ids cmd)
    (h : s.incomingOrder cmd = some order) (clock : Clock) (halone : s.Alone)
    (hjoins : s.JoinsNoLevel cmd) : (s.executed clock order cmd).Alone := by
  intro a b ha hb hside hprice
  rcases executed_rested hinv hcmd h clock ha with
    ⟨haid, hremains, haside, haprice⟩ | ⟨a', ha', haid, haside, haprice⟩
  · rcases executed_rested hinv hcmd h clock hb with
      ⟨hbid, _⟩ | ⟨b', hb', hbid, hbside, hbprice⟩
    · exact haid.trans hbid.symm
    · have hbid' := hjoins order h hremains b' hb' (hbside.trans (hside.symm.trans haside))
        (hbprice.trans (hprice.symm.trans haprice))
      exact haid.trans (hbid'.symm.trans hbid)
  · rcases executed_rested hinv hcmd h clock hb with
      ⟨hbid, hremains, hbside, hbprice⟩ | ⟨b', hb', hbid, hbside, hbprice⟩
    · have haid' := hjoins order h hremains a' ha' (haside.trans (hside.trans hbside))
        (haprice.trans (hprice.trans hbprice))
      exact haid.symm.trans (haid'.trans hbid.symm)
    · have hsame := halone a' b' ha' hb' (haside.trans (hside.trans hbside.symm))
        (haprice.trans (hprice.trans hbprice.symm))
      exact haid.symm.trans (hsame.trans hbid)

/-- A fill is with an order of the other side. -/
theorem fill_side (hinv : s.Invariant ids) {f : Order P × ℕ} (hf : f ∈ s.fills order) :
    f.1.side = order.side.opposite := by
  have hlive : Live s.orderManager (Levels.queue (s.otherSide order)) := (hinv.book _).sound.live
  have hcrossing : f.1 ∈ s.crossing order := Allocation.mem_queue_of_mem_fills hf
  obtain ⟨hmem, hget⟩ :=
    (hlive.mono fun _ => mem_queue_of_mem_crossing).mem_restingOrders.mp hcrossing
  obtain ⟨resting, hresting, _, hside, _⟩ :=
    (hinv.book _).sound.rests _ (mem_queue_of_mem_crossing hmem)
  rw [Option.some.inj (hget.symm.trans hresting), hside]

theorem joinsNoLevel_of_alone (hinv : s.Invariant ids) (hcmd : Admissible ids cmd)
    (h : s.incomingOrder cmd = some order) (clock : Clock)
    (halone : (s.executed clock order cmd).Alone) : s.JoinsNoLevel cmd := by
  intro order' horder' hremains other hother hside hprice
  obtain rfl := Option.some.inj (h.symm.trans horder')
  by_contra hne
  obtain ⟨_, hservedSide, hservedPrice⟩ := served_place (s := s) order
  have hserved : (s.executed clock order cmd).Rested (s.served order) := by
    refine ⟨?_, ?_⟩
    · rw [served_coreOrderId, executed_contains hinv.sound hcmd h, if_pos rfl]
      exact hremains
    · rw [served_coreOrderId, executed_incoming hinv.sound hcmd h, if_pos hremains]
  have huntouched : ∀ f ∈ s.fills order, f.1.coreOrderId ≠ other.coreOrderId := by
    intro f hf heq
    have hget := (mem_fills hinv.sound hcmd h hf).1
    rw [heq] at hget
    have hfill := fill_side hinv hf
    rw [Option.some.inj (hget.symm.trans hother.2), hside] at hfill
    exact OrderSide.opposite_ne order.side hfill.symm
  have hkeeps : (s.executed clock order cmd).Rested other := by
    refine ⟨?_, ?_⟩
    · rw [executed_contains hinv.sound hcmd h, if_neg hne]
      exact ⟨hother.1, fun f hf heq => (huntouched f hf heq).elim⟩
    · rcases executed_other hinv.sound hcmd h clock hne with ⟨_, hsame⟩ | ⟨f, hf, hid, _⟩
      · exact hsame.trans hother.2
      · exact (huntouched f hf hid).elim
  have hsame := halone (s.served order) other hserved hkeeps (hservedSide.trans hside.symm)
    (hservedPrice.trans hprice.symm)
  exact hne (hsame.symm.trans served_coreOrderId)

/-- A fill that is not booked leaves a row with too much in it. -/
theorem booksAll_of_restores (hinv : s.Invariant ids) (hcmd : Admissible ids cmd)
    (hkept : s.Kept symbol) (h : s.incomingOrder cmd = some order) (clock : Clock)
    (hrestorable : s.Restorable) (hrestores : (s.executed clock order cmd).Restores) :
    s.BooksAll cmd := by
  refine booksAll_of_forall hinv hcmd h fun f hf => ?_
  by_contra hnot
  obtain ⟨hget, hne, hpos, hle⟩ := mem_fills hinv.sound hcmd h hf
  have hrow := hrestorable.rows f.1.coreOrderId
  rw [hget] at hrow
  obtain ⟨row, hlookup, hrecovers⟩ := Lists.exists_of_rel_some hrow
  have hopen := hrecovers.isOpen hkept hget (by omega)
  rw [← executed_symbol hinv.sound hcmd h clock] at hopen
  rw [← lookup_unbooked hinv hcmd h clock hf hnot] at hlookup
  obtain ⟨revived, hrevived, _, _, hremaining⟩ := revived_of_recovers hrecovers hlookup hopen
  -- the order is in the new book, so it should have been in the old one
  obtain ⟨hbook, hquantities⟩ := hrestores 0 _ (List.Perm.refl _)
  have hcontains := contains_restarted 0 (List.Perm.refl _) hrevived
  rw [hbook] at hcontains
  obtain ⟨old, new, hold, hnew, _, _, hsame⟩ := hquantities _ hcontains
  rw [restarted_orderManager] at hnew
  obtain rfl := Option.some.inj (hrevived.symm.trans hnew)
  rcases executed_other hinv.sound hcmd h clock hne with
    ⟨huntouched, _⟩ | ⟨g, hg, hid, _, ⟨_, _, hgone⟩ | ⟨_, hgiven⟩⟩
  · exact huntouched (List.mem_map_of_mem hf)
  · simp [hold] at hgone
  · obtain rfl := fills_inj hinv.sound hcmd h hg hf hid
    obtain rfl := Option.some.inj (hold.symm.trans hgiven)
    have hless := Order.openQuantity_giveFill hle
    rw [Order.openQuantity, ← hsame, hremaining, ← Order.openQuantity] at hless
    omega

theorem executed_restorable (hinv : s.Invariant ids) (hcmd : Admissible ids cmd)
    (h : s.incomingOrder cmd = some order) (clock : Clock) (hrestorable : s.Restorable)
    (hbooks : s.BooksAll cmd) (hjoins : s.JoinsNoLevel cmd) :
    (s.executed clock order cmd).Restorable where
  rows id := by
    have hshows : ∀ id, Option.Rel OrderRow.Shows (s.table.lookup id)
        (s.orderManager.orderMap id) := fun id =>
      Lists.rel_imp (hrestorable.rows id) fun _ _ _ _ hrecovers => hrecovers.shows
    refine Lists.rel_imp ((mirrored_executed hinv hcmd h clock hshows).mpr hbooks id) ?_
    intro row order' hrow horder' hshown
    obtain ⟨hsymbol, hside⟩ := executed_row_place hinv hcmd h clock hrestorable hrow horder'
    exact ⟨hshown, hsymbol, hside⟩
  resting := by
    refine (noZombies_executed hinv.sound hcmd h hrestorable.resting).mpr ?_
    rw [← exhausted_booked_iff hinv.sound hcmd h, (booksAll_iff h).mp hbooks]
    exact fun f hf _ => hf
  alone := executed_alone hinv hcmd h clock hrestorable.alone hjoins

/-- The command books all its trades, and what is left of its order joins no other. -/
def KeepsRestorable (s : Partition P) (cmd : Command P) : Prop :=
  s.BooksAll cmd ∧ s.JoinsNoLevel cmd

/-- A partition that a restart restores stays so exactly if the command books all
its trades and its order joins no other. -/
theorem restores_step (hinv : s.Invariant ids) (hcmd : Admissible ids cmd)
    (hkept : s.Kept symbol) (hrestorable : s.Restorable)
    (h : processCommand clock s cmd = some s') :
    (s.KeepsRestorable cmd → s'.Restorable) ∧ (s'.Restores → s.KeepsRestorable cmd) := by
  obtain ⟨s'', hs'', hinv'⟩ := processCommand_invariant hinv hcmd clock
  obtain rfl := Option.some.inj (hs''.symm.trans h)
  rcases processCommand_cases hinv.sound hcmd clock with
    ⟨hincoming, _, _, _, _, heq⟩ | ⟨c, order, rfl, _, _, heq⟩ | ⟨order, hincoming, heq⟩
  · obtain rfl := Option.some.inj (heq.symm.trans h)
    refine ⟨fun _ => ⟨fun id => ?_, hrestorable.resting, hrestorable.alone⟩, fun _ => ?_⟩
    · rw [lookup_table rfl]
      exact hrestorable.rows id
    · simp [KeepsRestorable, BooksAll, JoinsNoLevel, hincoming]
  · obtain rfl := Option.some.inj (heq.symm.trans h)
    refine ⟨fun _ => ⟨fun id => ?_, fun id order' horder' => ?_, ?_⟩, fun _ => ?_⟩
    · have hmanager : (((s.cancelled clock c.orderId).publish
          (.execution order "CANCELED")).retire c.orderId).orderManager.orderMap id =
            if id = c.orderId then none else s.orderManager.orderMap id :=
        OrderManager.removeOrderById_orderMap _ _ _
      rw [lookup_cancelled, hmanager]
      split_ifs
      · exact Option.Rel.none
      · exact hrestorable.rows id
    · obtain ⟨hne, hold⟩ := OrderManager.orderMap_of_removeOrderById horder'
      obtain ⟨hcontains, hpos⟩ := hrestorable.resting id order' hold
      exact ⟨OrderBook.contains_without.mpr ⟨hne, hcontains⟩, hpos⟩
    · intro a b ha hb
      have hold : ∀ order, (((s.cancelled clock c.orderId).publish
          (.execution order "CANCELED")).retire c.orderId).Rested order → s.Rested order := by
        rintro order ⟨hcontains, hget⟩
        exact ⟨(OrderBook.contains_without.mp hcontains).2,
          (OrderManager.orderMap_of_removeOrderById hget).2⟩
      exact hrestorable.alone a b (hold a ha) (hold b hb)
    · simp [KeepsRestorable, BooksAll, JoinsNoLevel, incomingOrder]
  · obtain rfl := Option.some.inj (heq.symm.trans h)
    constructor
    · rintro ⟨hbooks, hjoins⟩
      exact executed_restorable hinv hcmd hincoming clock hrestorable hbooks hjoins
    · intro hrestores
      exact ⟨booksAll_of_restores hinv hcmd hkept hincoming clock hrestorable hrestores,
        joinsNoLevel_of_alone hinv hcmd hincoming clock (alone_of_restores hinv' hrestores)⟩

omit [FinitePrice P] in
theorem restorable_init (symbol : Instrument) (currentId : TradeID) :
    (init symbol currentId : Partition P).Restorable where
  rows _ := Option.Rel.none
  resting id order horder := by simp [init] at horder
  alone order _ horder := by
    obtain ⟨_, hget⟩ := horder
    simp [init] at hget

omit [FinitePrice P] in
theorem kept_init (symbol : Instrument) (currentId : TradeID) :
    (init symbol currentId : Partition P).Kept symbol :=
  ⟨rfl, fun id order horder => by simp [init] at horder⟩

end Steps

namespace Sample

/-- Two buys that queue at one price. -/
def queuedBuys : List (Command ℚ) :=
  [submit 1 "B1" .buy .limit 3 10, submit 2 "B2" .buy .limit 4 10]

end Sample

end Partition

end BetaTrader
