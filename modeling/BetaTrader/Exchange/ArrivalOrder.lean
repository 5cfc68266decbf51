import BetaTrader.Exchange.ArrivalBook
import BetaTrader.Exchange.Conservation
import BetaTrader.Exchange.PriceTimePriority

/-!
# The partition refines the book without levels

The order manager and the two price maps of a partition stand for one list of open
orders.  Every command goes along with the entries it makes in that list, and brings
about the same deals.
-/

namespace BetaTrader

variable {P : Type}

/-- What the book without levels keeps of an order. -/
def Order.resting (order : Order P) : Resting P where
  id := order.coreOrderId
  side := order.side
  price := order.price
  quantity := order.openQuantity

def Trade.deal (trade : Trade P) : Deal P where
  buyOrderId := trade.buyOrderId
  sellOrderId := trade.sellOrderId
  price := trade.price
  quantity := trade.quantity.toNat

def Order.entry (order : Order P) : Entry P :=
  .enter order.resting (decide (order.orderType = .market))

theorem Order.entry_ne_withdraw (order : Order P) (id : OrderID) :
    order.entry ≠ .withdraw id := by
  simp [Order.entry]

/-- The command leaves the places of `a` and `b` alone: it replaces neither, and does not
take `b` out. -/
def Command.KeepsPlaces (a b : OrderID) : Command P → Prop
  | .newOrder _ => True
  | .cancelOrder cmd => cmd.orderId ≠ b
  | .modifyOrder cmd => cmd.orderId ≠ a ∧ cmd.orderId ≠ b

instance (a b : OrderID) (cmd : Command P) : Decidable (cmd.KeepsPlaces a b) :=
  match cmd with
  | .newOrder _ => inferInstanceAs (Decidable True)
  | .cancelOrder _ => inferInstanceAs (Decidable (_ ≠ _))
  | .modifyOrder _ => inferInstanceAs (Decidable (_ ∧ _))

namespace Partition

open Matcher

/-- The partition stands for the book without levels. -/
structure Refines [DecidableEq P] (s : Partition P) (book : ArrivalBook P) : Prop where
  sound : ArrivalBook.Sound book.orders
  /-- A level is the queue of the orders of its side and price. -/
  level : ∀ side price, Levels.level price (s.orderBook.sideMap side) =
    (book.orders.filter fun r => r.side = side ∧ r.price = price).map Resting.id
  shown : ∀ r ∈ book.orders, ∃ order, s.orderManager.orderMap r.id = some order ∧
    order.resting = r
  deals : s.matchedTrades.map Trade.deal = book.deals

/-- The entries a command makes: those of the order that passes the gate. -/
def entriesOf [PriceArith P] (s : Partition P) : Command P → List (Entry P)
  | .newOrder cmd => ((s.incomingOrder (.newOrder cmd)).map Order.entry).toList
  | .cancelOrder cmd => [.withdraw cmd.orderId]
  | .modifyOrder cmd => ((s.incomingOrder (.modifyOrder cmd)).map fun order =>
      [.withdraw order.coreOrderId, order.entry]).getD []

/-- The entries of a run. -/
def entries [PriceArith P] (clock : Clock) : Partition P → List (Command P) → List (Entry P) :=
  PartialRun.labels (processCommand clock) entriesOf

variable [FinitePrice P] {ids : List OrderID} {s s' : Partition P} {order : Order P}
  {cmd : Command P} {clock : Clock} {book : ArrivalBook P}

/-! ## What the relation says of the book -/

theorem Refines.queue (h : s.Refines book) (hbook : BookInvariant s.orderManager s.orderBook)
    (side : OrderSide) : Levels.queue (s.orderBook.sideMap side) =
      (Levels.sortByKey side.before Resting.price
        (book.orders.filter fun r => r.side = side)).map Resting.id := by
  apply Levels.queue_eq_map_sortByKey (hbook side).sorted (hbook side).noEmpty
  intro price
  rw [h.level, List.filter_filter]
  refine congrArg _ (List.filter_congr fun r _ => ?_)
  rw [Bool.decide_and, Bool.and_comm]

theorem Refines.contains_iff (h : s.Refines book)
    (hbook : BookInvariant s.orderManager s.orderBook) {id : OrderID} :
    s.orderBook.Contains id ↔ id ∈ book.orders.map Resting.id := by
  rw [OrderBook.contains_iff]
  constructor
  · rintro ⟨side, hid⟩
    rw [h.queue hbook] at hid
    obtain ⟨r, hr, rfl⟩ := List.mem_map.mp hid
    exact List.mem_map_of_mem (List.mem_filter.mp (Levels.mem_sortByKey.mp hr)).1
  · intro hid
    obtain ⟨r, hr, rfl⟩ := List.mem_map.mp hid
    refine ⟨r.side, ?_⟩
    rw [h.queue hbook]
    exact List.mem_map_of_mem (Levels.mem_sortByKey.mpr (List.mem_filter.mpr ⟨hr, by simp⟩))

theorem Refines.restingOrders (h : s.Refines book)
    (hbook : BookInvariant s.orderManager s.orderBook) (side : OrderSide) :
    (Matcher.restingOrders s.orderManager (Levels.queue (s.orderBook.sideMap side))).map
        Order.resting =
      Levels.sortByKey side.before Resting.price (book.orders.filter fun r => r.side = side) := by
  have hshown (rs : List (Resting P)) (hrs : ∀ r ∈ rs, r ∈ book.orders) :
      (Matcher.restingOrders s.orderManager (rs.map Resting.id)).map Order.resting = rs := by
    induction rs with
    | nil => rfl
    | cons r rs ih =>
        obtain ⟨order, horder, hr⟩ := h.shown r (hrs r List.mem_cons_self)
        rw [List.map_cons, restingOrders_cons horder, List.map_cons, hr,
          ih fun r hr => hrs r (List.mem_cons_of_mem _ hr)]
  rw [h.queue hbook]
  exact hshown _ fun r hr => (List.mem_filter.mp (Levels.mem_sortByKey.mp hr)).1

/-! ## The match -/

omit [FinitePrice P] in
theorem accepts_resting [LE P] (order : Order P) (price : P) :
    order.resting.accepts (decide (order.orderType = .market)) price ↔
      PriceTime.accepts order price := by
  rw [Resting.accepts, PriceTime.accepts, decide_eq_true_iff]
  rfl

omit [FinitePrice P] in
/-- On a side whose orders stand at their own prices the prices of the listing are
theirs. -/
theorem listing_eq {side : OrderSide} {manager : OrderManager P} {map : PriceMap P}
    (hrests : Levels.All (Rests manager side) map) : PriceTime.listing manager map =
      (Matcher.restingOrders manager (Levels.queue map)).map fun o => (o.price, o) := by
  induction map with
  | nil => rfl
  | cons l map ih =>
      obtain ⟨hl, hmap⟩ := Levels.all_cons.mp hrests
      rw [PriceTime.listing_cons, Levels.queue_cons, restingOrders_append, List.map_append, ih hmap]
      refine congrArg (· ++ _) (List.map_congr_left fun resting hresting => ?_)
      obtain ⟨ptr, hptr, hget⟩ := List.mem_filterMap.mp hresting
      obtain ⟨resting', hget', _, _, hprice, _⟩ := hl ptr hptr
      rw [← hprice, Option.some.inj (hget.symm.trans hget')]

theorem crossing_eq_filter (hbook : BookInvariant s.orderManager s.orderBook)
    (htype : order.orderType = .limit ∨ order.orderType = .market) : s.crossing order =
      (Matcher.restingOrders s.orderManager (Levels.queue (s.otherSide order))).filter
        fun o => PriceTime.accepts order o.price := by
  have hside : SideInvariant s.orderManager order.side.opposite (s.otherSide order) := hbook _
  rw [Partition.crossing, ← PriceTime.crossing_eq htype hside.noEmpty hside.sound.live,
    PriceTime.crossing_eq_filter hside.sorted, listing_eq hside.rests, List.filter_map,
    List.map_map]
  exact List.map_id _

/-- An incoming order meets the same orders, in the same turn. -/
theorem Refines.crossing (h : s.Refines book) (hbook : BookInvariant s.orderManager s.orderBook)
    (htype : order.orderType = .limit ∨ order.orderType = .market) :
    (s.crossing order).map Order.resting =
      ArrivalBook.serving order.resting (decide (order.orderType = .market)) book.orders := by
  have hresting : (s.crossing order).map Order.resting =
      ((Matcher.restingOrders s.orderManager (Levels.queue (s.otherSide order))).map
        Order.resting).filter fun r => PriceTime.accepts order r.price := by
    rw [crossing_eq_filter hbook htype, List.filter_map]
    rfl
  rw [hresting, otherSide, h.restingOrders hbook, Levels.filter_sortByKey, List.filter_filter]
  refine congrArg _ (List.filter_congr fun r _ => ?_)
  rw [Bool.decide_and, Bool.and_comm]
  exact congrArg _ (decide_eq_decide.mpr (accepts_resting order r.price).symm)

/-- The fills of the book without levels. -/
def arrivalFills (book : ArrivalBook P) (order : Order P) : List (Resting P × ℕ) :=
  ArrivalBook.fills order.resting (decide (order.orderType = .market)) book.orders

theorem Refines.fills (h : s.Refines book) (hbook : BookInvariant s.orderManager s.orderBook)
    (htype : order.orderType = .limit ∨ order.orderType = .market) :
    (s.fills order).map (fun f => (f.1.resting, f.2)) = arrivalFills book order := by
  rw [arrivalFills, ArrivalBook.fills, ← h.crossing hbook htype, Allocation.fills_map]
  rfl

omit [FinitePrice P] in
theorem deals_tradesOf (order : Order P) {fs : List (Order P × ℕ)}
    (hsmall : ∀ f ∈ fs, f.2 < 2 ^ 64) (currentId : TradeID) (tick : ℕ) :
    (tradesOf clock order fs currentId tick).map Trade.deal =
      fs.map fun f => order.resting.deal (f.1.resting, f.2) := by
  induction fs generalizing currentId tick with
  | nil => rfl
  | cons f fs ih =>
      have hf : (UInt64.ofNat f.2).toNat = f.2 := UInt64.toNat_ofNat_of_lt' (hsmall f (by simp))
      rw [tradesOf, List.map_cons, List.map_cons,
        ih fun g hg => hsmall g (List.mem_cons_of_mem f hg)]
      refine congrArg (· :: _) ?_
      simp only [Trade.deal, tradeOf, hf]
      rfl

section Match

variable (h : s.Refines book) (hadm : Admitted ids s order)
  (htype : order.orderType = .limit ∨ order.orderType = .market)

include h hadm htype

theorem Refines.mem_arrivalFills {f : Order P × ℕ} (hf : f ∈ s.fills order) :
    (f.1.resting, f.2) ∈ arrivalFills book order := by
  rw [← h.fills hadm.book htype]
  exact List.mem_map.mpr ⟨f, hf, rfl⟩

theorem Refines.given_fill {f : Order P × ℕ} (hf : f ∈ s.fills order) :
    given (arrivalFills book order) f.1.coreOrderId = f.2 :=
  given_of_mem h.sound.nodup_fills (h.mem_arrivalFills hadm htype hf)

theorem Refines.given_untouched {id : OrderID} (hid : id ∉ touchedIds (s.fills order)) :
    given (arrivalFills book order) id = 0 := by
  rw [← h.fills hadm.book htype]
  refine given_eq_zero fun g hg heq => hid ?_
  obtain ⟨f, hf, rfl⟩ := List.mem_map.mp hg
  exact List.mem_map.mpr ⟨f, hf, heq⟩

/-- What becomes of a resting order: its fill, if it gets one, is taken off. -/
theorem Refines.afterMatch_resting {r : Resting P} (hr : r ∈ book.orders) :
    ∃ o, (s.afterMatch clock order).orderManager.orderMap r.id = some o ∧
      o.resting = { r with quantity := r.quantity - given (arrivalFills book order) r.id } := by
  obtain ⟨old, hold, rfl⟩ := h.shown r hr
  have hne : old.coreOrderId ≠ order.coreOrderId := fun heq =>
    hadm.notMem ((h.contains_iff hadm.book).mpr (heq ▸ List.mem_map_of_mem hr))
  rcases afterMatch_other clock hadm.matchable hne with
    ⟨huntouched, hsame⟩ | ⟨f, hf, hid, hf', hnew⟩
  · refine ⟨old, hsame.trans hold, ?_⟩
    have hzero : given (arrivalFills book order) old.resting.id = 0 :=
      h.given_untouched hadm htype huntouched
    rw [hzero]
    rfl
  · obtain rfl : f.1 = old := Option.some.inj (hf'.symm.trans hold)
    refine ⟨_, hnew, ?_⟩
    have hgiven : given (arrivalFills book order) f.1.resting.id = f.2 :=
      h.given_fill hadm htype hf
    have hle : f.2 ≤ f.1.openQuantity := (mem_fillsOn hadm.matchable hf).2.2.2
    rw [hgiven]
    simp only [Order.resting, Order.openQuantity_giveFill hle]
    rfl

/-- The map drops the orders of which nothing is left. -/
theorem Refines.less_isSome_iff {r : Resting P} (hr : r ∈ book.orders) :
    (r.less (given (arrivalFills book order) r.id)).isSome ↔
      r.id ∉ exhaustedIds order.openQuantity (s.crossing order) := by
  have hless : (r.less (given (arrivalFills book order) r.id)).isSome ↔
      given (arrivalFills book order) r.id < r.quantity := by
    rw [Resting.less]
    split_ifs with hlt <;> simp [hlt]
  have hexhausted : r.id ∈ exhaustedIds order.openQuantity (s.crossing order) ↔
      ∃ f ∈ s.fills order, f.1.coreOrderId = r.id ∧ f.2 = f.1.openQuantity :=
    mem_exhaustedIds hadm.matchable
  have hpos := h.sound.pos r hr
  obtain ⟨old, hold, rfl⟩ := h.shown r hr
  rw [hless, hexhausted]
  constructor
  · rintro hlt ⟨f, hf, hid, hall⟩
    have hgiven := h.given_fill hadm htype hf
    obtain rfl : f.1 = old :=
      Option.some.inj ((mem_fillsOn hadm.matchable hf).1.symm.trans (hid ▸ hold))
    have heq : given (arrivalFills book order) f.1.resting.id = f.1.resting.quantity :=
      hgiven.trans hall
    omega
  · intro hnone
    by_cases htouched : old.coreOrderId ∈ touchedIds (s.fills order)
    · obtain ⟨f, hf, hid⟩ := List.mem_map.mp htouched
      have hfill := mem_fillsOn hadm.matchable hf
      obtain rfl : f.1 = old := Option.some.inj (hfill.1.symm.trans (hid ▸ hold))
      have hgiven : given (arrivalFills book order) f.1.resting.id = f.2 :=
        h.given_fill hadm htype hf
      rw [hgiven]
      exact lt_of_le_of_ne hfill.2.2.2 fun hall => hnone ⟨f, hf, rfl, hall⟩
    · have hzero : given (arrivalFills book order) old.resting.id = 0 :=
        h.given_untouched hadm htype htouched
      omega

/-- What is left of the incoming order comes to rest in both books, or in none. -/
theorem Refines.rest : (if decide (order.orderType = .market) then []
      else (order.resting.less ((arrivalFills book order).map Prod.snd).sum).toList) =
    if s.Remains order then [(s.served order).resting] else [] := by
  have hsum : ((arrivalFills book order).map Prod.snd).sum =
      min order.openQuantity (Allocation.total Order.openQuantity (s.crossing order)) := by
    rw [← h.fills hadm.book htype, List.map_map, ← Allocation.sum_fills]
    rfl
  have hserved : (s.served order).openQuantity = _ := served_openQuantity
  have hquantity : order.resting.quantity = order.openQuantity := rfl
  rcases htype with htype | htype
  · simp only [htype, Remains, and_true, Resting.less, hsum, hquantity]
    by_cases hopen : 0 < (s.served order).openQuantity
    · have hresting : (s.served order).resting = { order.resting with
          quantity := (s.served order).openQuantity } := by
        obtain ⟨qty, status, heq⟩ := s.served_set order
        rw [heq]
        rfl
      have hlt : min order.openQuantity (Allocation.total Order.openQuantity (s.crossing order)) <
          order.openQuantity := by omega
      have hleft : order.openQuantity -
          min order.openQuantity (Allocation.total Order.openQuantity (s.crossing order)) =
            (s.served order).openQuantity := by omega
      simp [hopen, hlt, hresting, hleft]
    · have hnot : ¬min order.openQuantity
          (Allocation.total Order.openQuantity (s.crossing order)) < order.openQuantity := by omega
      simp [hopen, hnot]
  · simp [htype, Remains]

/-- The levels that the match leaves hold the orders of which something is left. -/
theorem Refines.afterMatch_level (side : OrderSide) (price : P) :
    Levels.level price ((s.orderBook.afterMatch s.orderManager order).sideMap side) =
      ((book.orders.filterMap fun r =>
          r.less (given (arrivalFills book order) r.id)).filter fun r =>
        r.side = side ∧ r.price = price).map Resting.id := by
  have hkey (r r' : Resting P) (hside : r'.side = r.side) (hprice : r'.price = r.price) :
      decide (r'.side = side ∧ r'.price = price) = decide (r.side = side ∧ r.price = price) := by
    rw [hside, hprice]
  rw [ArrivalBook.ids_filterMap_less (given (arrivalFills book order) ·.id) hkey,
    OrderBook.afterMatch, OrderBook.sideMap_setSideMap]
  split_ifs with hopposite
  · subst hopposite
    rw [mapAfter, Levels.level_prune, h.level, List.filter_map]
    refine congrArg _ (List.filter_congr fun r hr => ?_)
    rw [Bool.eq_iff_iff, h.less_isSome_iff hadm htype (List.mem_filter.mp hr).1]
    exact decide_eq_true_iff
  · -- the orders of the own side get no fill
    have hall : ((book.orders.filter fun r => r.side = side ∧ r.price = price).filter fun r =>
        (r.less (given (arrivalFills book order) r.id)).isSome) =
          book.orders.filter fun r => r.side = side ∧ r.price = price := by
      refine List.filter_eq_self.mpr fun r hr => ?_
      obtain ⟨hr, hkey⟩ := List.mem_filter.mp hr
      have hzero : given (arrivalFills book order) r.id = 0 := by
        refine given_eq_zero fun f hf hid => hopposite ?_
        obtain ⟨hmem, hside, _⟩ := h.sound.fill hf
        rw [h.sound.eq_of_id hmem hr hid, (of_decide_eq_true hkey).1] at hside
        exact hside
      rw [hzero, Resting.less_zero (h.sound.pos r hr)]
      rfl
    rw [hall, h.level]

/-- The whole of a command after its admission is one entry. -/
theorem Refines.afterAll : (s.afterAll clock order cmd).Refines (book.step order.entry) := by
  have horders : (book.step order.entry).orders = (book.orders.filterMap fun r =>
      r.less (given (arrivalFills book order) r.id)) ++
        if s.Remains order then [(s.served order).resting] else [] :=
    congrArg _ (h.rest hadm htype)
  have hnotMem : order.coreOrderId ∉ book.orders.map Resting.id := fun hmem =>
    hadm.notMem ((h.contains_iff hadm.book).mpr hmem)
  refine ⟨h.sound.step ?_, fun side price => ?_, fun r hr => ?_, ?_⟩
  · rintro id rfl
    exact hnotMem
  · rw [horders, afterAll_orderBook, List.filter_append, List.map_append,
      ← h.afterMatch_level hadm htype]
    split_ifs with hremains
    · rw [OrderBook.push, OrderBook.sideMap_setSideMap]
      have hbook : BookInvariant (s.afterMatch clock order).orderManager
          (s.orderBook.afterMatch s.orderManager order) :=
        hadm.book.afterMatch hadm.incoming_mem hadm.notMem
      have hsorted := (hbook (s.served order).side).sorted
      split_ifs with hside
      · subst hside
        rw [Levels.level_pushBack hsorted]
        by_cases hprice : price = (s.served order).price
        · simp [Order.resting, hprice]
        · simp [Order.resting, hprice, Ne.symm hprice]
      · simp [Order.resting, Ne.symm hside]
    · simp
  · rw [horders, List.mem_append] at hr
    rcases hr with hr | hr
    · obtain ⟨old, hold, hless⟩ := List.mem_filterMap.mp hr
      obtain ⟨hlt, rfl⟩ := Resting.less_eq_some.mp hless
      obtain ⟨o, ho, hresting⟩ : ∃ o,
          (s.afterMatch clock order).orderManager.orderMap old.id = some o ∧ _ :=
        h.afterMatch_resting hadm htype hold
      refine ⟨o, ?_, hresting⟩
      refine (hadm.entered.afterAll_orderMap (OrderBook.contains_iff.mpr ⟨old.side, ?_⟩)).trans ho
      refine Levels.level_sublist.subset (?_ : old.id ∈ Levels.level old.price _)
      rw [h.afterMatch_level hadm htype]
      exact List.mem_map.mpr ⟨_, List.mem_filter.mpr ⟨hr, by simp⟩, rfl⟩
    · split_ifs at hr with hremains
      · rw [List.mem_singleton.mp hr]
        exact ⟨_, hadm.entered.afterAll_served hremains, rfl⟩
      · exact (List.not_mem_nil hr).elim
  · have htrades : (s.afterMatch clock order).matchedTrades =
        s.matchedTrades ++ s.trades clock order := by
      rw [matchedTrades, afterMatch_journal, List.flatMap_append, List.flatMap_singleton]
      rfl
    rw [matchedTrades_afterAll, htrades, List.map_append, h.deals, trades,
      deals_tradesOf order hadm.entered.fill_small]
    refine congrArg (book.deals ++ ·) ?_
    have hfills : _ = (arrivalFills book order).map order.resting.deal :=
      congrArg (List.map order.resting.deal) (h.fills hadm.book htype)
    rw [List.map_map] at hfills
    exact hfills

end Match

/-! ## Commands and runs -/

/-- An order that is taken out, and its journal, are an entry as well. -/
theorem Refines.withdraw (h : s.Refines book) {id : OrderID}
    (hbook : s'.orderBook = s.orderBook.without id)
    (hmanager : ∀ ptr, ptr ≠ id → s'.orderManager.orderMap ptr = s.orderManager.orderMap ptr)
    (htrades : s'.matchedTrades = s.matchedTrades) : s'.Refines (book.withdraw id) where
  sound := h.sound.sublist List.filter_sublist
  level side price := by
    rw [hbook, OrderBook.sideMap_without, Levels.level_prune, h.level, List.filter_map,
      ArrivalBook.withdraw, List.filter_comm]
    rfl
  shown r hr := by
    obtain ⟨hr, hid⟩ := List.mem_filter.mp hr
    obtain ⟨o, ho, hresting⟩ := h.shown r hr
    exact ⟨o, (hmanager r.id (of_decide_eq_true hid)).trans ho, hresting⟩
  deals := by
    rw [htrades]
    exact h.deals

omit [FinitePrice P] in
theorem withdraw_eq_self {id : OrderID} (hid : id ∉ book.orders.map Resting.id) :
    book.withdraw id = book := by
  have hfilter : (book.orders.filter fun r => r.id ≠ id) = book.orders := by
    refine List.filter_eq_self.mpr fun r hr => decide_eq_true fun heq => hid ?_
    exact List.mem_map.mpr ⟨r, hr, heq⟩
  rw [ArrivalBook.withdraw, hfilter]

theorem Refines.prepared (h : s.Refines book) (hinv : s.Invariant ids)
    (hcmd : Admissible ids cmd) (hincoming : s.incomingOrder cmd = some order) :
    (s.prepared clock order cmd).Refines (book.withdraw order.coreOrderId) := by
  refine h.withdraw (prepared_orderBook hinv.sound hcmd hincoming) (fun ptr hptr => ?_) ?_
  · rw [prepared_orderManager hincoming, OrderManager.write_orderMap_of_ne _ _ hptr]
  · rw [matchedTrades, prepared_journal, List.flatMap_append,
      ignoresAdmission_matchedTrades.admissionEvents, List.append_nil]
    rfl

theorem Refines.executed (h : s.Refines book) (hinv : s.Invariant ids)
    (hcmd : Admissible ids cmd) (hincoming : s.incomingOrder cmd = some order) :
    (s.executed clock order cmd).Refines ((s.entriesOf cmd).foldl ArrivalBook.step book) := by
  have hadm := hinv.prepared hcmd hincoming clock
  have hprepared : (s.prepared clock order cmd).Refines (book.withdraw order.coreOrderId) :=
    h.prepared hinv hcmd hincoming
  have htype : order.orderType = .limit ∨ order.orderType = .market := by
    rcases incomingOrder_cases hinv.sound hcmd hincoming with
      ⟨_, _, _, _, _, _, htype⟩ | ⟨_, _, _, _, _, _, _, htype⟩
    · exact htype
    · exact Or.inl htype
  have hexecuted : (s.executed clock order cmd).Refines
      ((book.withdraw order.coreOrderId).step order.entry) :=
    hprepared.afterAll hadm htype
  cases cmd with
  | newOrder c =>
      have hfresh : order.coreOrderId ∉ book.orders.map Resting.id := by
        rw [← h.contains_iff hinv.book]
        intro hmem
        obtain ⟨o, ho, _⟩ := hinv.book.sound.contains_orderMap hmem
        rcases incomingOrder_cases hinv.sound hcmd hincoming with
          ⟨_, _, _, _, hnone, _⟩ | ⟨_, _, heq, _⟩
        · simp [hnone] at ho
        · cases heq
      rw [withdraw_eq_self hfresh] at hexecuted
      simpa [entriesOf, hincoming] using hexecuted
  | cancelOrder c => simp [incomingOrder] at hincoming
  | modifyOrder c =>
      simp only [entriesOf, hincoming, Option.map_some, Option.getD_some, List.foldl_cons,
        List.foldl_nil]
      exact hexecuted

theorem Refines.processCommand (h : s.Refines book) (hinv : s.Invariant ids)
    (hcmd : Admissible ids cmd) (h' : Partition.processCommand clock s cmd = some s') :
    s'.Refines ((s.entriesOf cmd).foldl ArrivalBook.step book) := by
  have hsame : ∀ {clientId symbol side reason},
      (s.publishRejection clock cmd.orderId clientId symbol side reason).Refines book :=
    ⟨h.sound, h.level, h.shown, (congrArg _ (List.flatMap_append.trans (List.append_nil _))).trans
      h.deals⟩
  rcases processCommand_cases hinv.sound hcmd clock with
    ⟨hnone, _, _, _, _, heq⟩ | ⟨c, old, rfl, hold, hmem, heq⟩ | ⟨order, hincoming, heq⟩
  · obtain rfl := Option.some.inj (heq.symm.trans h')
    cases cmd with
    | newOrder c => simpa [entriesOf, hnone] using hsame
    | modifyOrder c => simpa [entriesOf, hnone] using hsame
    | cancelOrder c =>
        have hnot : c.orderId ∉ book.orders.map Resting.id := by
          rw [← h.contains_iff hinv.book]
          intro hmem
          obtain ⟨old, hold, _⟩ := hinv.book.sound.contains_orderMap hmem
          -- an order in the book would have been cancelled, and its id would be free
          have hcancelled := processCancelOrder_eq hinv.sound hold hmem clock
          have hmanager := congrArg (fun t => t.orderManager.orderMap c.orderId)
            (Option.some.inj (heq.symm.trans hcancelled))
          rw [retire_orderManager, OrderManager.removeOrderById_orderMap_self] at hmanager
          exact Option.some_ne_none old (hold.symm.trans hmanager)
        have hwithdraw : (s.entriesOf (.cancelOrder c)).foldl ArrivalBook.step book = book :=
          withdraw_eq_self hnot
        rw [hwithdraw]
        exact hsame
  · obtain rfl := Option.some.inj (heq.symm.trans h')
    refine h.withdraw rfl (fun ptr hptr => OrderManager.removeOrderById_orderMap_of_ne _ hptr) ?_
    exact (ignoresAdmission_matchedTrades.cancelled _ _).trans (List.append_nil _)
  · obtain rfl := Option.some.inj (heq.symm.trans h')
    exact h.executed hinv hcmd hincoming

theorem refines_init (symbol : Instrument) (currentId : TradeID) :
    (init symbol currentId : Partition P).Refines ArrivalBook.empty where
  sound := ArrivalBook.sound_nil
  level side price := by
    rw [init, OrderBook.empty_sideMap]
    rfl
  shown r hr := (List.not_mem_nil hr).elim
  deals := rfl

theorem refines_step (history : List (Command P)) (s : Partition P) (book : ArrivalBook P)
    (cmd : Command P) (hinv : s.Invariant (newIds history)) (h : s.Refines book)
    (hcmd : Admissible (newIds history) cmd) :
    ∃ s', Partition.processCommand clock s cmd = some s' ∧
      s'.Invariant (newIds (history ++ [cmd])) ∧
      s'.Refines ((s.entriesOf cmd).foldl ArrivalBook.step book) := by
  obtain ⟨s', hs', hinv'⟩ := processCommand_invariant hinv hcmd clock
  rw [← newIds_concat] at hinv'
  exact ⟨s', hs', hinv', h.processCommand hinv hcmd hs'⟩

theorem refines_run {commands : List (Command P)} (hvalid : Valid commands) (clock : Clock)
    (symbol : Instrument) (currentId : TradeID) :
    ∃ s, processAll clock (init symbol currentId) commands = some s ∧
      s.Invariant (newIds commands) ∧ s.Refines ((entries clock (init symbol currentId)
        commands).foldl ArrivalBook.step ArrivalBook.empty) := by
  refine PartialRun.run_simulation entriesOf ArrivalBook.step
    (fun history s => s.Invariant (newIds history)) Refines refines_step ?_
    (refines_init symbol currentId) (hvalid.follows clock _)
  exact invariant_init symbol currentId

/-- Every run brings about the deals and the queues that the book without levels makes of
the entries of its commands. -/
theorem processAll_refines_arrivals {commands : List (Command P)} (hvalid : Valid commands)
    (clock : Clock) (symbol : Instrument) (currentId : TradeID) :
    ∃ s, processAll clock (init symbol currentId) commands = some s ∧
      ∃ book, (entries clock (init symbol currentId) commands).foldl ArrivalBook.step
          ArrivalBook.empty = book ∧ s.Refines book ∧
        ∀ side, Levels.queue (s.orderBook.sideMap side) =
          (Levels.sortByKey side.before Resting.price
            (book.orders.filter fun r => r.side = side)).map Resting.id := by
  obtain ⟨s, hs, hinv, hrefines⟩ := refines_run hvalid clock symbol currentId
  exact ⟨s, hs, _, rfl, hrefines, hrefines.queue hinv.book⟩

/-! ## Nobody loses a place -/

theorem Refines.behind_step {a : OrderID} {r : Resting P} (hrefines : s.Refines book)
    (hinv : s.Invariant ids) (hcmd : Admissible ids cmd) (hkeeps : cmd.KeepsPlaces a r.id)
    (ha : a ∈ ids) (h : ArrivalBook.Behind a r book.orders) :
    ArrivalBook.Behind a r ((s.entriesOf cmd).foldl ArrivalBook.step book).orders := by
  cases cmd with
  | newOrder c =>
      cases hincoming : s.incomingOrder (.newOrder c) with
      | none => simpa [entriesOf, hincoming] using h
      | some order =>
          have hnot : ¬ArrivalBook.Brings a order.entry := by
            intro hbrings
            rcases incomingOrder_cases hinv.sound hcmd hincoming with
              ⟨_, _, _, _, _, hfresh, _⟩ | ⟨_, _, heq, _⟩
            · have hid : order.coreOrderId = a := hbrings
              exact hfresh (hid ▸ ha)
            · cases heq
          rw [entriesOf, hincoming]
          exact h.step hrefines.sound hnot (Order.entry_ne_withdraw order r.id)
  | cancelOrder c =>
      have hne : Entry.withdraw (P := P) c.orderId ≠ .withdraw r.id := fun heq =>
        hkeeps (Entry.withdraw.inj heq)
      exact h.step hrefines.sound id hne
  | modifyOrder c =>
      cases hincoming : s.incomingOrder (.modifyOrder c) with
      | none => simpa [entriesOf, hincoming] using h
      | some order =>
          obtain ⟨hneA, hneB⟩ := hkeeps
          have hid : order.coreOrderId = c.orderId := by
            rcases incomingOrder_cases hinv.sound hcmd hincoming with
              ⟨_, heq, _⟩ | ⟨_, _, heq, _, hid, _⟩
            · cases heq
            · cases heq
              exact hid.symm
          have hne : Entry.withdraw (P := P) order.coreOrderId ≠ .withdraw r.id := fun heq =>
            hneB (hid.symm.trans (Entry.withdraw.inj heq))
          have hnot : ¬ArrivalBook.Brings a order.entry := fun hbrings =>
            hneA (hid.symm.trans (hbrings : order.coreOrderId = a))
          rw [entriesOf, hincoming]
          exact (h.step hrefines.sound id hne).step
            (hrefines.sound.sublist List.filter_sublist) hnot (Order.entry_ne_withdraw order r.id)

/-- An order that rests ahead of another in a level stays ahead of it for as long as it is
open, and until then the other one gets nothing. -/
theorem not_overtaken {pre post : List (Command P)} (hvalid : Valid (pre ++ post))
    (clock : Clock) (symbol : Instrument) (currentId : TradeID)
    (hs : processAll clock (init symbol currentId) pre = some s) {side : OrderSide} {price : P}
    {a b : OrderID}
    (hahead : [a, b].Sublist (Levels.level price (s.orderBook.sideMap side)))
    (hkeeps : ∀ cmd ∈ post, cmd.KeepsPlaces a b) :
    ∃ s', processAll clock s post = some s' ∧ (s'.orderBook.Contains a →
      [a, b].Sublist (Levels.level price (s'.orderBook.sideMap side)) ∧
        (s'.orderManager.orderMap b).map Order.remainingQuantity =
          (s.orderManager.orderMap b).map Order.remainingQuantity) := by
  obtain ⟨t, ht, hinv, hrefines⟩ := refines_run hvalid.of_append clock symbol currentId
  obtain rfl : t = s := Option.some.inj (ht.symm.trans hs)
  -- the two orders in the book without levels
  rw [hrefines.level] at hahead
  obtain ⟨rs, hrs, hids⟩ := List.sublist_map_iff.mp hahead
  have hlength : rs.length = 2 := by simpa using (congrArg List.length hids).symm
  obtain ⟨q, r, rfl⟩ := List.length_eq_two.mp hlength
  simp only [List.map_cons, List.map_nil, List.cons.injEq, and_true] at hids
  obtain ⟨rfl, rfl⟩ := hids
  have hq := List.mem_filter.mp (hrs.subset List.mem_cons_self)
  have hr := List.mem_filter.mp (hrs.subset (List.mem_cons_of_mem q List.mem_cons_self))
  obtain ⟨hq, hqside, hqprice⟩ := hq.imp_right of_decide_eq_true
  obtain ⟨hr, hrside, hrprice⟩ := hr.imp_right of_decide_eq_true
  have hbehind : ArrivalBook.Behind q.id r _ := fun _ =>
    ⟨q, rfl, hqside.trans hrside.symm, hqprice.trans hrprice.symm,
      hrs.trans List.filter_sublist⟩
  have hknown : q.id ∈ newIds pre := by
    obtain ⟨o, ho, _⟩ := hrefines.shown q hq
    exact (hinv.managed q.id o ho).2.2
  have hfollows : PartialRun.Follows (Partition.processCommand clock) (fun history _ cmd =>
      Admissible (newIds history) cmd ∧ cmd.KeepsPlaces q.id r.id) pre t post := by
    refine PartialRun.follows_of_history fun mid cmd rest hpost => ?_
    have hall := hvalid
    rw [hpost, ← List.append_assoc] at hall
    exact ⟨hall.admissible, hkeeps cmd (by simp [hpost])⟩
  obtain ⟨s', hs', ⟨hinv', _⟩, hrefines', hbehind'⟩ := PartialRun.run_simulation entriesOf
    ArrivalBook.step (fun history s => s.Invariant (newIds history) ∧ q.id ∈ newIds history)
    (fun s book => s.Refines book ∧ ArrivalBook.Behind q.id r book.orders)
    (fun history s book cmd hs hR hok => by
      obtain ⟨s', hs', hinv', hrefines'⟩ := refines_step history s book cmd hs.1 hR.1 hok.1
      refine ⟨s', hs', ⟨hinv', ?_⟩, hrefines', hR.1.behind_step hs.1 hok.1 hok.2 hs.2 hR.2⟩
      rw [newIds_concat]
      exact List.mem_append_left _ hs.2)
    ⟨hinv, hknown⟩ ⟨hrefines, hbehind⟩ hfollows
  refine ⟨s', hs', fun hopen => ?_⟩
  obtain ⟨q', hid, hside', hprice', hsub⟩ :=
    hbehind' ((hrefines'.contains_iff hinv'.book).mp hopen)
  constructor
  · have hfilter := (hsub.filter fun r => r.side = side ∧ r.price = price).map Resting.id
    rw [List.filter_eq_self.mpr (by simp [hside', hprice', hrside, hrprice])] at hfilter
    rw [hrefines'.level, ← hid]
    exact hfilter
  · obtain ⟨o, ho, hoo⟩ := hrefines.shown r hr
    obtain ⟨o', ho', hoo'⟩ := hrefines'.shown r (hsub.subset (by simp))
    have hquantity : o'.openQuantity = o.openQuantity :=
      (congrArg Resting.quantity hoo').trans (congrArg Resting.quantity hoo).symm
    rw [ho, ho', Option.map_some, Option.map_some, UInt64.toNat_inj.mp hquantity]

/-- Two sells at one price. -/
def Sample.queued : List (Command ℚ) :=
  [Sample.submit 1 "S1" .sell .limit 3 10, Sample.submit 2 "S2" .sell .limit 4 10]

theorem processAll_refines_arrivals_sample :
    ∃ s, processAll (fun _ => 0) (init .eurusd 0) Sample.commands = some s ∧
      ∃ book, (entries (fun _ => 0) (init .eurusd 0) Sample.commands).foldl ArrivalBook.step
          ArrivalBook.empty = book ∧ s.Refines book ∧
        ∀ side, Levels.queue (s.orderBook.sideMap side) =
          (Levels.sortByKey side.before Resting.price
            (book.orders.filter fun r => r.side = side)).map Resting.id :=
  processAll_refines_arrivals Sample.valid_commands (fun _ => 0) .eurusd 0

/-- A buy that takes a part of the first of them. -/
theorem not_overtaken_sample : ∃ s,
    processAll (fun _ => 0) (init .eurusd 0) Sample.queued = some s ∧
    ∃ s', processAll (fun _ => 0) s [Sample.submit 3 "B1" .buy .limit 2 10] = some s' ∧
      (s'.orderBook.Contains 1 →
        [1, 2].Sublist (Levels.level 10 (s'.orderBook.sideMap .sell)) ∧
          (s'.orderManager.orderMap 2).map Order.remainingQuantity =
            (s.orderManager.orderMap 2).map Order.remainingQuantity) := by
  have hlevel : (processAll (fun _ => 0) (init .eurusd 0) Sample.queued).map
      (fun s => Levels.level 10 (s.orderBook.sideMap .sell)) = some [1, 2] := by decide +kernel
  obtain ⟨s, hs, hahead⟩ := Option.map_eq_some_iff.mp hlevel
  have hvalid : Valid (Sample.queued ++ [Sample.submit 3 "B1" .buy .limit 2 10]) := by decide
  exact ⟨s, hs, not_overtaken hvalid (fun _ => 0) .eurusd 0 hs (hahead ▸ List.Sublist.refl _)
    (by decide)⟩

example : (entries (fun _ => 0) (init .eurusd 0) Sample.commands).foldl ArrivalBook.step
    ArrivalBook.empty = ⟨[], [⟨3, 1, 10, 3⟩, ⟨3, 2, 10, 2⟩]⟩ := by decide +kernel

end Partition

end BetaTrader
