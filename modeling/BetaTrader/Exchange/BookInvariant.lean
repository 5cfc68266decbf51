import BetaTrader.Exchange.MatchTableSpec

/-!
# The invariant of the book

The book stores pointers, while price, side and quantity live in the objects of
the order manager.  `BookInvariant` ties the two together.  It survives the
removal of an order, the insertion of an open order at its own price, and a
match.  `BookSound` is the part of it that does not depend on how prices
compare, and holds for NaN as well.
-/

namespace BetaTrader

variable {P : Type}

/-- The pointer leads to an open order of this side and price. -/
def Rests (manager : OrderManager P) (side : OrderSide) (price : P) (ptr : OrderPtr) : Prop :=
  ∃ order, manager.orderMap ptr = some order ∧ order.coreOrderId = ptr ∧ order.side = side ∧
    order.price = price ∧ 0 < order.openQuantity

/-- The pointer leads to an open order of this side, under its own id. -/
def RestsOn (manager : OrderManager P) (side : OrderSide) (ptr : OrderPtr) : Prop :=
  ∃ order, manager.orderMap ptr = some order ∧ order.coreOrderId = ptr ∧ order.side = side ∧
    0 < order.openQuantity

structure SideSound (manager : OrderManager P) (side : OrderSide) (map : PriceMap P) : Prop where
  noEmpty : Levels.NoEmpty map
  rests : ∀ ptr ∈ Levels.queue map, RestsOn manager side ptr
  nodup : (Levels.queue map).Nodup

def BookSound (manager : OrderManager P) (book : OrderBook P) : Prop :=
  ∀ side, SideSound manager side (book.sideMap side)

/-- The pointers of a side lead to orders of this side, each under its own id, and no
level is empty. -/
structure SideStored (manager : OrderManager P) (side : OrderSide) (map : PriceMap P) :
    Prop where
  noEmpty : Levels.NoEmpty map
  stored : ∀ ptr ∈ Levels.queue map, ∃ order, manager.orderMap ptr = some order ∧
    order.coreOrderId = ptr ∧ order.side = side
  nodup : (Levels.queue map).Nodup

def BookStored (manager : OrderManager P) (book : OrderBook P) : Prop :=
  ∀ side, SideStored manager side (book.sideMap side)

structure SideInvariant [LT P] (manager : OrderManager P) (side : OrderSide)
    (map : PriceMap P) : Prop where
  sorted : Levels.Sorted side.before map
  noEmpty : Levels.NoEmpty map
  rests : Levels.All (Rests manager side) map
  nodup : (Levels.queue map).Nodup

def BookInvariant [LT P] (manager : OrderManager P) (book : OrderBook P) : Prop :=
  ∀ side, SideInvariant manager side (book.sideMap side)

/-- Every price of a side stands behind all prices of the other. -/
def Uncrossed [LT P] (book : OrderBook P) : Prop :=
  ∀ side : OrderSide, ∀ l ∈ book.sideMap side, ∀ l' ∈ book.sideMap side.opposite,
    side.opposite.before l.1 l'.1

namespace OrderBook

/-- Does the order rest in the book? -/
def Contains (book : OrderBook P) (id : OrderID) : Prop :=
  id ∈ Levels.queue book.bidMap ∨ id ∈ Levels.queue book.askMap

instance (book : OrderBook P) (id : OrderID) : Decidable (book.Contains id) :=
  inferInstanceAs (Decidable (_ ∨ _))

theorem contains_iff {book : OrderBook P} {id : OrderID} :
    book.Contains id ↔ ∃ side, id ∈ Levels.queue (book.sideMap side) := by
  constructor
  · rintro (h | h)
    · exact ⟨.buy, h⟩
    · exact ⟨.sell, h⟩
  · rintro ⟨_ | _, h⟩
    · exact Or.inl h
    · exact Or.inr h

/-- The book without one order. -/
def without (book : OrderBook P) (id : OrderID) : OrderBook P :=
  { book with
    bidMap := Levels.prune (fun ptr => ptr ≠ id) book.bidMap
    askMap := Levels.prune (fun ptr => ptr ≠ id) book.askMap }

/-- The book with one more order at the end of its level. -/
def push [LT P] [DecidableLT P] (book : OrderBook P) (order : Order P) : OrderBook P :=
  book.setSideMap order.side
    (Levels.pushBack order.side.before order.price order.coreOrderId (book.sideMap order.side))

/-- The book that a match with `order` leaves. -/
def afterMatch [LT P] [DecidableLT P] (book : OrderBook P) (manager : OrderManager P)
    (order : Order P) : OrderBook P :=
  book.setSideMap order.side.opposite
    (Matcher.mapAfter manager order (book.sideMap order.side.opposite))

theorem sideMap_without (book : OrderBook P) (id : OrderID) (side : OrderSide) :
    (book.without id).sideMap side = Levels.prune (fun ptr => ptr ≠ id) (book.sideMap side) := by
  cases side <;> rfl

end OrderBook

section Sound

variable {manager manager' : OrderManager P} {book : OrderBook P} {side : OrderSide}
  {map : PriceMap P}

theorem SideSound.tail {l : P × PriceLevel} (h : SideSound manager side (l :: map)) :
    SideSound manager side map where
  noEmpty := (Levels.noEmpty_cons.mp h.noEmpty).2
  rests := fun ptr hptr => h.rests ptr (List.mem_append_right l.2 hptr)
  nodup := (List.nodup_append.mp h.nodup).2.1

theorem SideSound.live (h : SideSound manager side map) :
    Matcher.Live manager (Levels.queue map) := by
  intro ptr hptr
  obtain ⟨order, horder, hid, _, hopen⟩ := h.rests ptr hptr
  exact ⟨order, horder, hid, hopen⟩

theorem SideSound.congr (h : SideSound manager side map)
    (heq : ∀ ptr ∈ Levels.queue map, manager'.orderMap ptr = manager.orderMap ptr) :
    SideSound manager' side map := by
  refine ⟨h.noEmpty, fun ptr hptr => ?_, h.nodup⟩
  obtain ⟨order, horder, hrest⟩ := h.rests ptr hptr
  exact ⟨order, (heq ptr hptr).trans horder, hrest⟩

theorem SideSound.prune (h : SideSound manager side map) (keep : OrderPtr → Bool) :
    SideSound manager side (Levels.prune keep map) where
  noEmpty := Levels.noEmpty_prune map
  rests := by
    intro ptr hptr
    rw [Levels.queue_prune] at hptr
    exact h.rests ptr (List.mem_of_mem_filter hptr)
  nodup := by
    rw [Levels.queue_prune]
    exact h.nodup.filter _

theorem BookSound.contains_orderMap (h : BookSound manager book) {id : OrderID}
    (hid : book.Contains id) :
    ∃ order, manager.orderMap id = some order ∧ order.coreOrderId = id ∧
      0 < order.openQuantity ∧ id ∈ Levels.queue (book.sideMap order.side) := by
  obtain ⟨side, hside⟩ := OrderBook.contains_iff.mp hid
  obtain ⟨order, horder, horderId, rfl, hopen⟩ := (h side).rests id hside
  exact ⟨order, horder, horderId, hopen, hside⟩

theorem BookSound.congr (h : BookSound manager book)
    (heq : ∀ ptr, book.Contains ptr → manager'.orderMap ptr = manager.orderMap ptr) :
    BookSound manager' book :=
  fun side => (h side).congr fun ptr hptr => heq ptr (OrderBook.contains_iff.mpr ⟨side, hptr⟩)

theorem BookSound.without (h : BookSound manager book) (id : OrderID) :
    BookSound manager (book.without id) := by
  intro side
  rw [OrderBook.sideMap_without]
  exact (h side).prune _

theorem OrderBook.contains_without {id ptr : OrderID} :
    (book.without id).Contains ptr ↔ ptr ≠ id ∧ book.Contains ptr := by
  simp only [OrderBook.contains_iff, OrderBook.sideMap_without, Levels.queue_prune,
    List.mem_filter, decide_eq_true_eq, exists_and_right]
  exact and_comm

theorem OrderBook.not_contains_without (book : OrderBook P) (id : OrderID) :
    ¬(book.without id).Contains id := fun h =>
  (OrderBook.contains_without.mp h).1 rfl

theorem SideSound.stored (h : SideSound manager side map) : SideStored manager side map where
  noEmpty := h.noEmpty
  stored := by
    intro ptr hptr
    obtain ⟨order, horder, hid, hside, _⟩ := h.rests ptr hptr
    exact ⟨order, horder, hid, hside⟩
  nodup := h.nodup

theorem BookSound.stored (h : BookSound manager book) : BookStored manager book :=
  fun side => (h side).stored

theorem SideStored.tail {l : P × PriceLevel} (h : SideStored manager side (l :: map)) :
    SideStored manager side map where
  noEmpty := (Levels.noEmpty_cons.mp h.noEmpty).2
  stored := fun ptr hptr => h.stored ptr (List.mem_append_right l.2 hptr)
  nodup := (List.nodup_append.mp h.nodup).2.1

/-- A side that does not hold the order is not changed by its removal. -/
theorem SideStored.prune_eq_self (h : SideStored manager side map) {id : OrderID}
    (hid : id ∉ Levels.queue map) : Levels.prune (fun ptr => ptr ≠ id) map = map := by
  refine Levels.prune_eq_self h.noEmpty fun ptr hptr => ?_
  have hne : ptr ≠ id := fun heq => hid (heq ▸ hptr)
  simpa using hne

theorem SideSound.prune_eq_self (h : SideSound manager side map) {id : OrderID}
    (hid : id ∉ Levels.queue map) : Levels.prune (fun ptr => ptr ≠ id) map = map :=
  h.stored.prune_eq_self hid

theorem BookSound.without_eq_self (h : BookSound manager book) {id : OrderID}
    (hid : ¬book.Contains id) : book.without id = book := by
  refine OrderBook.ext_sideMap rfl fun side => ?_
  rw [OrderBook.sideMap_without]
  exact (h side).prune_eq_self fun hmem => hid (OrderBook.contains_iff.mpr ⟨side, hmem⟩)

theorem BookSound.matchable (h : BookSound manager book) {order : Order P}
    (horder : manager.orderMap order.coreOrderId = some order)
    (hnot : ¬book.Contains order.coreOrderId) (side : OrderSide) :
    Matcher.Matchable manager order (book.sideMap side) :=
  ⟨horder, (h side).live, (h side).nodup, (h side).noEmpty,
    fun hmem => hnot (OrderBook.contains_iff.mpr ⟨side, hmem⟩)⟩

/-! ## Cancelling -/

theorem findAndErase_eq {level : PriceLevel} (hstored : ∀ ptr ∈ level, ∃ order,
      manager.orderMap ptr = some order ∧ order.coreOrderId = ptr)
    (hnodup : level.Nodup) (id : OrderID) :
    OrderBook.findAndErase manager id level =
      some (if id ∈ level then some id else none, level.filter fun ptr => ptr ≠ id) := by
  induction level with
  | nil => rfl
  | cons ptr level ih =>
      obtain ⟨order, horder, rfl⟩ := hstored ptr (by simp)
      obtain ⟨hptr, hnodup⟩ := List.nodup_cons.mp hnodup
      have ih := ih (fun p hp => hstored p (List.mem_cons_of_mem _ hp)) hnodup
      simp only [OrderBook.findAndErase, OrderManager.deref, horder, ih, Option.bind_eq_bind,
        Option.bind_some]
      by_cases heq : order.coreOrderId = id
      · have hfilter : level.filter (fun ptr => ptr ≠ id) = level := by
          refine List.filter_eq_self.mpr fun p hp => ?_
          have hne : p ≠ id := fun h => hptr (by rw [heq, ← h]; exact hp)
          simpa using hne
        rw [if_pos heq, List.filter_cons_of_neg (by simpa using heq), hfilter]
        simp [heq]
      · rw [if_neg heq, List.filter_cons_of_pos (by simpa using heq)]
        simp [Ne.symm heq]

/-- One of the two loops of `cancelOrder` removes the order wherever it is. -/
theorem cancelInMap_eq (h : SideStored manager side map) (id : OrderID) :
    OrderBook.cancelInMap manager id map =
      some (if id ∈ Levels.queue map then some id else none,
        Levels.prune (fun ptr => ptr ≠ id) map) := by
  induction map with
  | nil => rfl
  | cons l map ih =>
      obtain ⟨price, level⟩ := l
      obtain ⟨hnodupLevel, _, hdisj⟩ := List.nodup_append.mp h.nodup
      have htail := h.tail
      have hstored (p : OrderPtr) (hp : p ∈ level) : ∃ order,
          manager.orderMap p = some order ∧ order.coreOrderId = p := by
        obtain ⟨order, horder, hid, _⟩ := h.stored p (List.mem_append_left _ hp)
        exact ⟨order, horder, hid⟩
      have hfind := findAndErase_eq hstored hnodupLevel id
      simp only [OrderBook.cancelInMap, hfind, Option.bind_eq_bind, Option.bind_some, ih htail]
      by_cases hmem : id ∈ level
      · have hnot : id ∉ Levels.queue map := fun hid => hdisj id hmem id hid rfl
        rw [Levels.prune, htail.prune_eq_self hnot]
        simp [hmem]
      · have hfilter : level.filter (fun ptr => ptr ≠ id) = level := by
          refine List.filter_eq_self.mpr fun p hp => ?_
          have hne : p ≠ id := fun heq => hmem (heq ▸ hp)
          simpa using hne
        have hne : level ≠ [] := (Levels.noEmpty_cons.mp h.noEmpty).1
        rw [Levels.prune, hfilter]
        simp [hmem, hne]

/-- `cancelOrder` removes the order, and reports it when it was in the book. -/
theorem BookStored.cancelOrder_eq (h : BookStored manager book) (id : OrderID) (now : Timestamp) :
    book.cancelOrder manager id now = some (book.without id,
      if book.Contains id then
        (manager.orderMap id).map fun order => book.refresh .delete order now
      else none) := by
  have hbid := cancelInMap_eq (h .buy) id
  have hask := cancelInMap_eq (h .sell) id
  simp only [OrderBook.sideMap] at hbid hask
  simp only [OrderBook.cancelOrder, hbid, hask, Option.bind_eq_bind, Option.bind_some]
  by_cases hb : id ∈ Levels.queue book.bidMap
  · obtain ⟨order, horder, _, hbuy⟩ := (h .buy).stored id hb
    have hnot : id ∉ Levels.queue book.askMap := by
      intro ha
      obtain ⟨sell, hsell, _, hsellSide⟩ := (h .sell).stored id ha
      rw [Option.some.inj (horder.symm.trans hsell), hsellSide] at hbuy
      exact OrderSide.noConfusion hbuy
    have hcontains : book.Contains id := Or.inl hb
    have hprune := (h .sell).prune_eq_self hnot
    simp only [OrderBook.sideMap] at hprune
    rw [OrderBook.without, hprune]
    simp [hb, hcontains, OrderManager.deref, horder, OrderBook.refresh]
  · by_cases ha : id ∈ Levels.queue book.askMap
    · have hcontains : book.Contains id := Or.inr ha
      obtain ⟨order, horder, _⟩ := (h .sell).stored id ha
      simp [hb, ha, hcontains, OrderManager.deref, horder, OrderBook.without, OrderBook.refresh]
    · have hcontains : ¬book.Contains id := not_or.mpr ⟨hb, ha⟩
      simp [hb, ha, hcontains, OrderBook.without]

theorem cancelOrder_eq (h : BookSound manager book) (id : OrderID) (now : Timestamp) :
    book.cancelOrder manager id now = some (book.without id,
      if book.Contains id then
        (manager.orderMap id).map fun order => book.refresh .delete order now
      else none) :=
  h.stored.cancelOrder_eq id now

end Sound

/-! ## Inserting -/

section Compared

variable [LT P] [DecidableLT P] {manager : OrderManager P} {book : OrderBook P} {order : Order P}

theorem SideSound.pushBack {side : OrderSide} {map : PriceMap P}
    (h : SideSound manager side map) (price : P) {ptr : OrderPtr}
    (hrests : RestsOn manager side ptr) (hnot : ptr ∉ Levels.queue map) :
    SideSound manager side (Levels.pushBack side.before price ptr map) where
  noEmpty := Levels.noEmpty_pushBack _ _ _ h.noEmpty
  rests := by
    intro ptr' hptr'
    rcases (Levels.mem_queue_pushBack _ _ _).mp hptr' with rfl | hptr'
    · exact hrests
    · exact h.rests ptr' hptr'
  nodup := (Levels.nodup_queue_pushBack _ _ _).mpr ⟨hnot, h.nodup⟩

theorem insertOrder_eq (horder : manager.orderMap order.coreOrderId = some order) :
    book.insertOrder manager order.coreOrderId =
      some (book.push order, book.refresh .new order order.timestamp) := by
  simp [OrderBook.insertOrder, OrderManager.deref, horder, OrderBook.push]

theorem BookSound.push (h : BookSound manager book)
    (horder : manager.orderMap order.coreOrderId = some order) (hopen : 0 < order.openQuantity)
    (hnot : ¬book.Contains order.coreOrderId) : BookSound manager (book.push order) := by
  intro side
  rw [OrderBook.push, OrderBook.sideMap_setSideMap]
  split_ifs with hside
  · subst hside
    exact (h order.side).pushBack _ ⟨order, horder, rfl, rfl, hopen⟩
      fun hmem => hnot (OrderBook.contains_iff.mpr ⟨_, hmem⟩)
  · exact h side

theorem OrderBook.contains_push {id : OrderID} :
    (book.push order).Contains id ↔ id = order.coreOrderId ∨ book.Contains id := by
  simp only [OrderBook.contains_iff, OrderBook.push, OrderBook.sideMap_setSideMap]
  constructor
  · rintro ⟨side, hid⟩
    split_ifs at hid with hside
    · exact ((Levels.mem_queue_pushBack _ _ _).mp hid).imp_right fun h => ⟨_, h⟩
    · exact Or.inr ⟨side, hid⟩
  · rintro (rfl | ⟨side, hid⟩)
    · refine ⟨order.side, ?_⟩
      rw [if_pos rfl]
      exact (Levels.mem_queue_pushBack _ _ _).mpr (Or.inl rfl)
    · refine ⟨side, ?_⟩
      split_ifs with hside
      · subst hside
        exact (Levels.mem_queue_pushBack _ _ _).mpr (Or.inr hid)
      · exact hid

/-! ## Matching -/

theorem OrderBook.contains_afterMatch {id : OrderID}
    (h : (book.afterMatch manager order).Contains id) : book.Contains id := by
  obtain ⟨side, hid⟩ := OrderBook.contains_iff.mp h
  rw [OrderBook.afterMatch, OrderBook.sideMap_setSideMap] at hid
  split_ifs at hid with hside
  · rw [Matcher.mapAfter, Levels.queue_prune, List.mem_filter] at hid
    exact OrderBook.contains_iff.mpr ⟨_, hid.1⟩
  · exact OrderBook.contains_iff.mpr ⟨side, hid⟩

section Matched

variable {clock : Clock} {m : MatchState P}

/-- The orders on the incoming order's own side take no part in the match. -/
theorem BookSound.notMem_touchedIds (h : BookSound manager book)
    (horder : manager.orderMap order.coreOrderId = some order)
    (hnot : ¬book.Contains order.coreOrderId) {side : OrderSide}
    (hside : side ≠ order.side.opposite) {ptr : OrderPtr}
    (hptr : ptr ∈ Levels.queue (book.sideMap side)) :
    ptr ∉ Matcher.touchedIds
      (Matcher.fillsOn manager order (book.sideMap order.side.opposite)) := by
  intro htouched
  have hmatchable := h.matchable horder hnot order.side.opposite
  have hopposite := Matcher.mem_queue_of_mem_crossing
    ((Matcher.touchedIds_fillsOn hmatchable).subset htouched)
  obtain ⟨resting, hresting, _, hrestingSide, _⟩ := (h side).rests ptr hptr
  obtain ⟨resting', hresting', _, hrestingSide', _⟩ := (h _).rests ptr hopposite
  rw [Option.some.inj (hresting'.symm.trans hresting), hrestingSide] at hrestingSide'
  exact hside hrestingSide'

/-- A match takes out of the book the orders that a fill takes everything from. -/
theorem BookSound.contains_afterMatch (h : BookSound manager book)
    (horder : manager.orderMap order.coreOrderId = some order)
    (hnot : ¬book.Contains order.coreOrderId) {id : OrderID} :
    (book.afterMatch manager order).Contains id ↔ book.Contains id ∧
      ∀ f ∈ Matcher.fillsOn manager order (book.sideMap order.side.opposite),
        f.1.coreOrderId = id → f.2 < f.1.openQuantity := by
  have hmatchable := h.matchable horder hnot order.side.opposite
  simp only [OrderBook.contains_iff, OrderBook.afterMatch, OrderBook.sideMap_setSideMap]
  constructor
  · rintro ⟨side, hid⟩
    split_ifs at hid with hside
    · obtain ⟨hqueue, hless⟩ := (Matcher.mem_queue_mapAfter hmatchable).mp hid
      exact ⟨⟨_, hqueue⟩, hless⟩
    · refine ⟨⟨side, hid⟩, fun f hf heq => ?_⟩
      exact (h.notMem_touchedIds horder hnot hside hid (heq ▸ List.mem_map_of_mem hf)).elim
  · rintro ⟨⟨side, hid⟩, hless⟩
    refine ⟨side, ?_⟩
    split_ifs with hside
    · exact (Matcher.mem_queue_mapAfter hmatchable).mpr ⟨hside ▸ hid, hless⟩
    · exact hid

theorem BookSound.afterMatch (h : BookSound m.manager book)
    (horder : m.manager.orderMap order.coreOrderId = some order)
    (hnot : ¬book.Contains order.coreOrderId) :
    BookSound (Matcher.matched clock order m (book.sideMap order.side.opposite)).manager
      (book.afterMatch m.manager order) := by
  have hmatchable := h.matchable horder hnot order.side.opposite
  intro side
  rw [OrderBook.afterMatch, OrderBook.sideMap_setSideMap]
  split_ifs with hside
  · subst hside
    have hpruned := (h order.side.opposite).prune fun ptr => ptr ∉ Matcher.exhaustedIds
      order.openQuantity (Matcher.crossingOrders m.manager order
        (book.sideMap order.side.opposite))
    refine ⟨hpruned.noEmpty, fun ptr hptr => ?_, hpruned.nodup⟩
    obtain ⟨resting, hresting, rfl, hrest⟩ := hpruned.rests ptr hptr
    obtain ⟨hqueue, hless⟩ := (Matcher.mem_queue_mapAfter hmatchable).mp hptr
    by_cases htouched : resting.coreOrderId ∈ Matcher.touchedIds
        (Matcher.fillsOn m.manager order (book.sideMap order.side.opposite))
    · -- a touched order that stays is filled in part
      obtain ⟨f, hf, hid⟩ := List.mem_map.mp htouched
      obtain ⟨hget, _, _, hle⟩ := Matcher.mem_fillsOn hmatchable hf
      have heq : f.1 = resting := Option.some.inj (hget.symm.trans (hid ▸ hresting))
      have hopen := Order.openQuantity_giveFill hle
      have hlt := hless f hf hid
      rw [← heq] at hrest ⊢
      exact ⟨f.1.giveFill f.2, Matcher.matched_resting hmatchable hf, rfl, hrest.1, by omega⟩
    · have hne : resting.coreOrderId ≠ order.coreOrderId := fun heq =>
        hmatchable.notMem (heq ▸ hqueue)
      exact ⟨resting, (Matcher.matched_other hne htouched).trans hresting, rfl, hrest⟩
  · refine (h side).congr fun ptr hptr => Matcher.matched_other (fun heq => hnot ?_)
      (h.notMem_touchedIds horder hnot hside hptr)
    exact OrderBook.contains_iff.mpr ⟨side, heq ▸ hptr⟩

/-- The orders of a side keep their prices in a match. -/
theorem Matcher.matched_price {map : PriceMap P}
    (hmatchable : Matcher.Matchable m.manager order map) {ptr : OrderPtr} {order' : Order P}
    (hne : ptr ≠ order.coreOrderId)
    (h : (Matcher.matched clock order m map).manager.orderMap ptr = some order') :
    ∃ old, m.manager.orderMap ptr = some old ∧ order'.price = old.price := by
  by_cases htouched : ptr ∈ Matcher.touchedIds (Matcher.fillsOn m.manager order map)
  · obtain ⟨f, hf, rfl⟩ := List.mem_map.mp htouched
    rw [Matcher.matched_resting hmatchable hf] at h
    exact ⟨f.1, (Matcher.mem_fillsOn hmatchable hf).1, by rw [← Option.some.inj h]; rfl⟩
  · rw [Matcher.matched_other hne htouched] at h
    exact ⟨order', h, rfl⟩

end Matched

end Compared

/-! ## Sides in order -/

section Invariant

variable [LT P] {manager manager' : OrderManager P} {book : OrderBook P} {side : OrderSide}
  {map : PriceMap P}

/-- The price of the object is the price of its level. -/
def PricedAt (manager : OrderManager P) (price : P) (ptr : OrderPtr) : Prop :=
  ∀ order, manager.orderMap ptr = some order → order.price = price

theorem SideInvariant.sound (h : SideInvariant manager side map) :
    SideSound manager side map where
  noEmpty := h.noEmpty
  rests := by
    intro ptr hptr
    obtain ⟨_, order, horder, hid, hside, _, hopen⟩ := h.rests.of_mem hptr
    exact ⟨order, horder, hid, hside, hopen⟩
  nodup := h.nodup

theorem SideInvariant.priced (h : SideInvariant manager side map) :
    Levels.All (PricedAt manager) map := by
  refine h.rests.mono fun price ptr _ => ?_
  rintro ⟨resting, hresting, _, _, hprice, _⟩ order horder
  rw [← Option.some.inj (hresting.symm.trans horder), hprice]

theorem SideSound.invariant (h : SideSound manager side map)
    (hsorted : Levels.Sorted side.before map) (hpriced : Levels.All (PricedAt manager) map) :
    SideInvariant manager side map where
  sorted := hsorted
  noEmpty := h.noEmpty
  rests := by
    intro l hl ptr hptr
    obtain ⟨order, horder, hid, hside, hopen⟩ := h.rests ptr (Levels.mem_queue.mpr ⟨l, hl, hptr⟩)
    exact ⟨order, horder, hid, hside, hpriced l hl ptr hptr order horder, hopen⟩
  nodup := h.nodup

theorem SideInvariant.tail {l : P × PriceLevel} (h : SideInvariant manager side (l :: map)) :
    SideInvariant manager side map :=
  h.sound.tail.invariant (List.pairwise_cons.mp h.sorted).2 (Levels.all_cons.mp h.priced).2

theorem BookInvariant.sound (h : BookInvariant manager book) : BookSound manager book :=
  fun side => (h side).sound

theorem BookInvariant.congr (h : BookInvariant manager book)
    (heq : ∀ ptr, book.Contains ptr → manager'.orderMap ptr = manager.orderMap ptr) :
    BookInvariant manager' book := by
  intro side
  refine (h.sound.congr heq side).invariant (h side).sorted ((h side).priced.mono ?_)
  intro price ptr hptr hpriced order horder
  exact hpriced order ((heq ptr (OrderBook.contains_iff.mpr ⟨side, hptr⟩)).symm.trans horder)

theorem BookInvariant.without (h : BookInvariant manager book) (id : OrderID) :
    BookInvariant manager (book.without id) := by
  intro side
  refine (h.sound.without id side).invariant ?_ ?_
  · rw [OrderBook.sideMap_without]
    exact Levels.sorted_prune (h side).sorted
  · rw [OrderBook.sideMap_without]
    exact Levels.all_prune (h side).priced

/-- On a sorted side the levels the incoming order reaches are all those that
do not break the loop. -/
theorem crossingLevels_eq_filter_of_trans [DecidableLT P] {order : Order P}
    (htrans : ∀ a b c : P, order.side.opposite.before a b → order.side.opposite.before b c →
      order.side.opposite.before a c)
    (hsorted : Levels.Sorted order.side.opposite.before map) :
    Matcher.crossingLevels order map = map.filter fun l => !decide (Matcher.breaks order l.1) := by
  refine Levels.takeWhile_eq_filter (List.Pairwise.imp (fun {l l'} hbefore => ?_) hsorted)
  simp only [Bool.not_eq_true', decide_eq_false_iff_not]
  intro hnot hbreaks
  exact hnot ⟨hbreaks.1, htrans _ _ _ hbreaks.2 hbefore⟩

end Invariant

section Linear

variable [LinearOrder P] {manager : OrderManager P} {book : OrderBook P} {order : Order P}

theorem BookInvariant.push (h : BookInvariant manager book)
    (horder : manager.orderMap order.coreOrderId = some order) (hopen : 0 < order.openQuantity)
    (hnot : ¬book.Contains order.coreOrderId) : BookInvariant manager (book.push order) := by
  intro side
  have hsound := h.sound.push horder hopen hnot side
  rw [OrderBook.push, OrderBook.sideMap_setSideMap] at hsound ⊢
  split_ifs at hsound ⊢ with hside
  · subst hside
    refine hsound.invariant (Levels.sorted_pushBack _ _ _ (h order.side).sorted)
      (Levels.all_pushBack _ _ _ (h order.side).priced fun order' horder' => ?_)
    rw [← Option.some.inj (horder.symm.trans horder')]
  · exact h side

theorem BookInvariant.afterMatch {clock : Clock} {m : MatchState P}
    (h : BookInvariant m.manager book)
    (horder : m.manager.orderMap order.coreOrderId = some order)
    (hnot : ¬book.Contains order.coreOrderId) :
    BookInvariant (Matcher.matched clock order m (book.sideMap order.side.opposite)).manager
      (book.afterMatch m.manager order) := by
  have hmatchable := h.sound.matchable horder hnot order.side.opposite
  intro side
  have hsound : SideSound (Matcher.matched clock order m
      (book.sideMap order.side.opposite)).manager side
      ((book.afterMatch m.manager order).sideMap side) := h.sound.afterMatch horder hnot side
  have hkeep : Levels.All (PricedAt (Matcher.matched clock order m
      (book.sideMap order.side.opposite)).manager) (book.sideMap side) := by
    refine (h side).priced.mono fun price ptr hptr hpriced order' horder' => ?_
    have hne : ptr ≠ order.coreOrderId := fun heq =>
      hnot (heq ▸ OrderBook.contains_iff.mpr ⟨side, hptr⟩)
    obtain ⟨old, hold, hprice⟩ := Matcher.matched_price hmatchable hne horder'
    rw [hprice, hpriced old hold]
  rw [OrderBook.afterMatch, OrderBook.sideMap_setSideMap] at hsound ⊢
  split_ifs at hsound ⊢ with hside
  · subst hside
    exact hsound.invariant (Levels.sorted_prune (h _).sorted) (Levels.all_prune hkeep)
  · exact hsound.invariant (h side).sorted hkeep

/-! ## The spread -/

omit [LinearOrder P] in
theorem OrderSide.before_opposite [LT P] (side : OrderSide) (a b : P) :
    side.opposite.before a b ↔ side.before b a := by
  cases side <;> rfl

theorem Uncrossed.of_keys {book' : OrderBook P} (h : Uncrossed book)
    (hkeys : ∀ side, ∀ l' ∈ book'.sideMap side, ∃ l ∈ book.sideMap side, l.1 = l'.1) :
    Uncrossed book' := by
  intro side l hl l' hl'
  obtain ⟨k, hk, hkey⟩ := hkeys side l hl
  obtain ⟨k', hk', hkey'⟩ := hkeys side.opposite l' hl'
  rw [← hkey, ← hkey']
  exact h side k hk k' hk'

theorem Uncrossed.without (h : Uncrossed book) (id : OrderID) : Uncrossed (book.without id) := by
  refine h.of_keys fun side l' hl' => ?_
  rw [OrderBook.sideMap_without] at hl'
  obtain ⟨l, hl, _, rfl⟩ := Levels.mem_prune.mp hl'
  exact ⟨l, hl, rfl⟩

theorem Uncrossed.afterMatch (h : Uncrossed book) (manager : OrderManager P) (order : Order P) :
    Uncrossed (book.afterMatch manager order) := by
  refine h.of_keys fun side l' hl' => ?_
  rw [OrderBook.afterMatch, OrderBook.sideMap_setSideMap] at hl'
  split_ifs at hl' with hside
  · obtain ⟨l, hl, _, rfl⟩ := Levels.mem_prune.mp hl'
    exact ⟨l, hside ▸ hl, rfl⟩
  · exact ⟨l', hl', rfl⟩

theorem crossingLevels_eq_filter {map : PriceMap P}
    (hsorted : Levels.Sorted order.side.opposite.before map) :
    Matcher.crossingLevels order map = map.filter fun l => !decide (Matcher.breaks order l.1) :=
  crossingLevels_eq_filter_of_trans (fun _ _ _ => trans_of order.side.opposite.before) hsorted

/-- If something is left of the incoming order, no level it could trade with is. -/
theorem breaks_of_mem_mapAfter {map : PriceMap P}
    (hmatchable : Matcher.Matchable manager order map)
    (hsorted : Levels.Sorted order.side.opposite.before map)
    (hopen : 0 < (Matcher.served manager order map).openQuantity) {l : P × PriceLevel}
    (hl : l ∈ Matcher.mapAfter manager order map) : Matcher.breaks order l.1 := by
  have hlive : Matcher.Live manager (Levels.queue (Matcher.crossingLevels order map)) :=
    hmatchable.live.mono fun _ => Matcher.mem_queue_of_mem_crossing
  rw [Matcher.served_openQuantity] at hopen
  have hall : Matcher.exhaustedIds order.openQuantity (Matcher.crossingOrders manager order map) =
      Levels.queue (Matcher.crossingLevels order map) := by
    have hexhausted : Allocation.exhausted Order.openQuantity order.openQuantity
        (Matcher.crossingOrders manager order map) = _ :=
      Allocation.exhausted_of_total_le (by omega) hlive.openQuantity_pos
    rw [Matcher.exhaustedIds, hexhausted]
    exact hlive.map_coreOrderId
  rw [Matcher.mapAfter, hall] at hl
  obtain ⟨k, hk, hne, rfl⟩ := Levels.mem_prune.mp hl
  by_contra hnot
  have hcrossing : k ∈ Matcher.crossingLevels order map := by
    rw [crossingLevels_eq_filter hsorted, List.mem_filter]
    exact ⟨hk, by simpa using hnot⟩
  refine hne (List.filter_eq_nil_iff.mpr fun ptr hptr => ?_)
  simpa using Levels.mem_queue.mpr ⟨k, hcrossing, hptr⟩

/-- An order whose price stands behind the other side may be inserted. -/
theorem Uncrossed.push (h : Uncrossed book)
    (hbehind : ∀ l' ∈ book.sideMap order.side.opposite,
      order.side.opposite.before order.price l'.1) : Uncrossed (book.push order) := by
  intro side l hl l' hl'
  rw [OrderBook.push, OrderBook.sideMap_setSideMap] at hl hl'
  by_cases hside : side = order.side
  · subst hside
    rw [if_pos rfl] at hl
    rw [if_neg (OrderSide.opposite_ne _)] at hl'
    rcases Levels.key_pushBack _ _ _ hl with hkey | ⟨k, hk, hkey⟩
    · exact hkey ▸ hbehind l' hl'
    · exact hkey ▸ h order.side k hk l' hl'
  · have hopposite : side.opposite = order.side := by
      cases side <;> cases horder : order.side <;> simp_all [OrderSide.opposite]
    rw [if_neg hside] at hl
    rw [if_pos hopposite] at hl'
    rcases Levels.key_pushBack _ _ _ hl' with hkey | ⟨k, hk, hkey⟩
    · have hl : l ∈ book.sideMap order.side.opposite := by
        rw [← hopposite, OrderSide.opposite_opposite]
        exact hl
      rw [hkey, hopposite, ← OrderSide.before_opposite]
      exact hbehind l hl
    · exact hkey ▸ h side l hl k (hopposite ▸ hk)

end Linear

end BetaTrader
