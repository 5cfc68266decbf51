import BetaTrader.Exchange.MatchTableSpec

/-!
# Price-time priority

The reference matcher lists the opposite side best price first and oldest first
inside a price, keeps the prefix whose prices the incoming order accepts, and
fills along it greedily.  `matchOrder_agrees` compares `Matcher::match` with it.
-/

namespace BetaTrader

namespace PriceTime

open Matcher

variable {P : Type}

/-- One side of the book with its prices, best price first and oldest order
first inside a price. -/
def listing (manager : OrderManager P) (map : PriceMap P) : List (P × Order P) :=
  map.flatMap fun l => (restingOrders manager l.2).map fun order => (l.1, order)

@[simp] theorem listing_nil (manager : OrderManager P) : listing manager [] = [] := rfl

@[simp] theorem listing_cons (manager : OrderManager P) (l : P × PriceLevel)
    (map : PriceMap P) : listing manager (l :: map) =
      (restingOrders manager l.2).map (fun order => (l.1, order)) ++ listing manager map := rfl

section Reference

variable [LE P] [DecidableLE P]

/-- A market order accepts every price, a limit order those that are no worse
than its own. -/
def accepts (incoming : Order P) (price : P) : Prop :=
  incoming.orderType = .market ∨ incoming.side = .buy ∧ price ≤ incoming.price ∨
    incoming.side = .sell ∧ incoming.price ≤ price

instance (incoming : Order P) (price : P) : Decidable (accepts incoming price) :=
  inferInstanceAs (Decidable (_ ∨ _))

/-- The orders of the prefix that crosses. -/
def crossing (manager : OrderManager P) (incoming : Order P) (map : PriceMap P) :
    List (Order P) :=
  ((listing manager map).takeWhile fun e => accepts incoming e.1).map Prod.snd

/-- The greedy fills along that prefix. -/
def referenceFills (manager : OrderManager P) (incoming : Order P) (map : PriceMap P) :
    List (Order P × ℕ) :=
  Allocation.fills Order.openQuantity incoming.openQuantity (crossing manager incoming map)

/-- The ids of the orders that the reference fills completely. -/
def filledIds (manager : OrderManager P) (incoming : Order P) (map : PriceMap P) :
    List OrderID :=
  ((referenceFills manager incoming map).filter fun f => f.2 = f.1.openQuantity).map
    fun f => f.1.coreOrderId

/-- What the reference leaves of the incoming order. -/
def referenceRemaining (manager : OrderManager P) (incoming : Order P) (map : PriceMap P) : ℕ :=
  incoming.openQuantity - Allocation.total Order.openQuantity (crossing manager incoming map)

/-- The status the incoming order ends with. -/
def referenceStatus (manager : OrderManager P) (incoming : Order P) (map : PriceMap P) :
    OrderStatus :=
  if referenceRemaining manager incoming map = 0 then .filled
  else if incoming.orderType = .market ∧ incoming.originalQuantity.toNat =
      referenceRemaining manager incoming map then .cancelled
  else if referenceFills manager incoming map = [] then incoming.status
  else .partiallyFilled

/-- What the reference matcher says about a match that finds `m` and `map` and
leaves `m'` and `map'`. -/
structure Agrees (clock : Clock) (incoming : Order P) (m : MatchState P) (map : PriceMap P)
    (m' : MatchState P) (map' : PriceMap P) : Prop where
  /-- One trade for every fill, in order, with consecutive ids. -/
  trades : m'.trades = (referenceFills m.manager incoming map).mapIdx fun i f =>
    tradeOf clock incoming f.1 f.2 (m.currentId + 1 + i) (m.ticks + i)
  trade_pos : ∀ trade ∈ m'.trades, 0 < trade.quantity
  total : (m'.trades.map fun trade => trade.quantity.toNat).sum =
    min incoming.openQuantity
      (Allocation.total Order.openQuantity (crossing m.manager incoming map))
  /-- The prefix that crosses leaves no order that crosses behind. -/
  crossing_all : crossing m.manager incoming map =
    ((listing m.manager map).filter fun e => accepts incoming e.1).map Prod.snd
  /-- Exactly the filled orders and the emptied levels leave the book. -/
  map_eq : map' = Levels.prune (fun ptr => ptr ∉ filledIds m.manager incoming map) map
  noEmpty : Levels.NoEmpty map'
  /-- A partly filled order is at the front. -/
  front : ∀ f ∈ referenceFills m.manager incoming map, f.2 < f.1.openQuantity →
    (Levels.queue map').head? = some f.1.coreOrderId
  touched : ∀ f ∈ referenceFills m.manager incoming map,
    m'.manager.orderMap f.1.coreOrderId = some (f.1.giveFill f.2)
  untouched : ∀ id, id ≠ incoming.coreOrderId →
    (∀ f ∈ referenceFills m.manager incoming map, f.1.coreOrderId ≠ id) →
      m'.manager.orderMap id = m.manager.orderMap id
  incoming_order : m'.manager.orderMap incoming.coreOrderId =
    some ((incoming.setRemainingQuantity (UInt64.ofNat
      (referenceRemaining m.manager incoming map))).setStatus
        (referenceStatus m.manager incoming map))
  /-- The status of an order that has not traded before. -/
  status : incoming.remainingQuantity = incoming.originalQuantity →
    referenceStatus m.manager incoming map =
      if referenceRemaining m.manager incoming map = 0 then .filled
      else if referenceFills m.manager incoming map = [] then
        if incoming.orderType = .market then .cancelled else incoming.status
      else .partiallyFilled

end Reference

/-- A book whose levels are in order and hold open orders, and an open limit or
market order that does not rest in it. -/
structure Ready [LT P] (manager : OrderManager P) (incoming : Order P) (book : OrderBook P) :
    Prop where
  incoming_mem : manager.orderMap incoming.coreOrderId = some incoming
  incoming_open : 0 < incoming.openQuantity
  orderType : incoming.orderType = .limit ∨ incoming.orderType = .market
  noEmpty : ∀ side, Levels.NoEmpty (book.sideMap side)
  sorted : ∀ side : OrderSide, Levels.Sorted side.before (book.sideMap side)
  live : ∀ side, Live manager (Levels.queue (book.sideMap side))
  nodup : ∀ side, (Levels.queue (book.sideMap side)).Nodup
  notMem : ∀ side, incoming.coreOrderId ∉ Levels.queue (book.sideMap side)

theorem Ready.matchable [LT P] {manager : OrderManager P} {incoming : Order P}
    {book : OrderBook P} (h : Ready manager incoming book) (side : OrderSide) :
    Matchable manager incoming (book.sideMap side) :=
  ⟨h.incoming_mem, h.live side, h.nodup side, h.noEmpty side, h.notMem side⟩

/-! ## The reference and the loops -/

theorem tradesOf_eq_mapIdx (clock : Clock) (incoming : Order P) (fs : List (Order P × ℕ))
    (currentId : TradeID) (tick : ℕ) :
    tradesOf clock incoming fs currentId tick = fs.mapIdx fun i f =>
      tradeOf clock incoming f.1 f.2 (currentId + 1 + i) (tick + i) := by
  induction fs generalizing currentId tick with
  | nil => rfl
  | cons f fs ih =>
      rw [tradesOf, ih, List.mapIdx_cons]
      simp only [Nat.add_assoc, Nat.add_comm 1, Nat.add_zero]

theorem tradesOf_pos (clock : Clock) (incoming : Order P) {fs : List (Order P × ℕ)}
    (hfs : ∀ f ∈ fs, 0 < f.2 ∧ f.2 ≤ f.1.openQuantity) (currentId : TradeID) (tick : ℕ) :
    ∀ trade ∈ tradesOf clock incoming fs currentId tick, 0 < trade.quantity := by
  induction fs generalizing currentId tick with
  | nil => simp [tradesOf]
  | cons f fs ih =>
      intro trade htrade
      rcases List.mem_cons.mp htrade with rfl | htrade
      · obtain ⟨hpos, hle⟩ := hfs f (by simp)
        have hf : (UInt64.ofNat f.2).toNat = f.2 :=
          UInt64.toNat_ofNat_of_lt' (hle.trans_lt f.1.openQuantity_lt)
        exact Quantity.pos_iff.mpr (hpos.trans_eq hf.symm)
      · exact ih (fun g hg => hfs g (List.mem_cons_of_mem f hg)) _ _ trade htrade

section Crossing

variable [LinearOrder P] {manager : OrderManager P} {incoming : Order P} {map : PriceMap P}

/-- The loop goes on exactly as long as the price is accepted. -/
theorem breaks_iff_not_accepts (htype : incoming.orderType = .limit ∨ incoming.orderType = .market)
    (price : P) : breaks incoming price ↔ ¬accepts incoming price := by
  rcases htype with htype | htype <;> cases hside : incoming.side <;>
    simp [breaks, accepts, htype, hside, OrderSide.opposite, OrderSide.before]

/-- A level that the loop skips because of its price hides no order of the
prefix, since it is not empty. -/
theorem crossing_eq (htype : incoming.orderType = .limit ∨ incoming.orderType = .market)
    (hmap : Levels.NoEmpty map) (hlive : Live manager (Levels.queue map)) :
    crossing manager incoming map = crossingOrders manager incoming map := by
  induction map with
  | nil => rfl
  | cons l map ih =>
      obtain ⟨hl, hmap⟩ := Levels.noEmpty_cons.mp hmap
      have hliveTail : Live manager (Levels.queue map) := hlive.mono fun p hp => by simp [hp]
      have ih := ih hmap hliveTail
      by_cases hbreaks : breaks incoming l.1
      · have haccepts := (breaks_iff_not_accepts htype l.1).mp hbreaks
        obtain ⟨ptr, ptrs, hptrs⟩ := List.exists_cons_of_ne_nil hl
        obtain ⟨order, horder, _⟩ := hlive ptr (by simp [hptrs])
        rw [crossing, listing_cons, hptrs, restingOrders_cons horder, List.map_cons,
          List.cons_append, List.takeWhile_cons_of_neg (by simpa using haccepts),
          crossingOrders, crossingLevels_cons_of_breaks hbreaks]
        rfl
      · have haccepts : accepts incoming l.1 := by
          by_contra hnot
          exact hbreaks ((breaks_iff_not_accepts htype l.1).mpr hnot)
        rw [crossing, listing_cons, List.takeWhile_append_of_pos (by simp [haccepts]),
          List.map_append, List.map_map, crossingOrders, crossingLevels_cons hbreaks,
          Levels.queue_cons, restingOrders_append]
        refine congrArg₂ _ (by simp) ih

theorem accepts_of_before {price price' : P}
    (hbefore : incoming.side.opposite.before price price') (h : accepts incoming price') :
    accepts incoming price := by
  rcases h with h | ⟨hside, h⟩ | ⟨hside, h⟩
  · exact Or.inl h
  · rw [hside] at hbefore
    exact Or.inr (Or.inl ⟨hside, (le_of_lt hbefore).trans h⟩)
  · rw [hside] at hbefore
    exact Or.inr (Or.inr ⟨hside, h.trans (le_of_lt hbefore)⟩)

/-- Best price first, so that a price behind a refused one is refused too. -/
theorem pairwise_listing (hsorted : Levels.Sorted incoming.side.opposite.before map) :
    (listing manager map).Pairwise fun a b => accepts incoming b.1 → accepts incoming a.1 := by
  refine List.pairwise_flatMap.mpr ⟨fun l _ => ?_, hsorted.imp fun {l l'} hbefore => ?_⟩
  · exact List.pairwise_map.mpr (List.pairwise_of_forall fun _ _ => id)
  · intro a ha b hb h
    obtain ⟨_, _, rfl⟩ := List.mem_map.mp ha
    obtain ⟨_, _, rfl⟩ := List.mem_map.mp hb
    exact accepts_of_before hbefore h

theorem crossing_eq_filter (hsorted : Levels.Sorted incoming.side.opposite.before map) :
    crossing manager incoming map =
      ((listing manager map).filter fun e => accepts incoming e.1).map Prod.snd := by
  rw [crossing, Levels.takeWhile_eq_filter]
  exact (pairwise_listing hsorted).imp fun {a b} h => by simpa using h

theorem referenceFills_eq (hcrossing : crossing manager incoming map =
    crossingOrders manager incoming map) :
    referenceFills manager incoming map = fillsOn manager incoming map := by
  rw [referenceFills, hcrossing, fillsOn]

/-- The filled orders are the exhausted ones, so the map loses exactly them. -/
theorem filledIds_eq (hlive : Live manager (Levels.queue map)) (hcrossing :
    crossing manager incoming map = crossingOrders manager incoming map) :
    filledIds manager incoming map =
      exhaustedIds incoming.openQuantity (crossingOrders manager incoming map) := by
  have hlive' : Live manager (Levels.queue (crossingLevels incoming map)) :=
    hlive.mono fun _ => mem_queue_of_mem_crossing
  have hexhausted : Allocation.exhausted Order.openQuantity incoming.openQuantity
      (crossingOrders manager incoming map) = _ :=
    Allocation.exhausted_eq_filter hlive'.openQuantity_pos
  rw [filledIds, referenceFills, hcrossing, exhaustedIds, hexhausted, List.map_map]
  rfl

/-- A partly filled order is the first that stays, since the filled ones stand
in front of it. -/
theorem head_mapAfter (h : Matchable manager incoming map) {f : Order P × ℕ}
    (hf : f ∈ fillsOn manager incoming map) (hlt : f.2 < f.1.openQuantity) :
    (Levels.queue (mapAfter manager incoming map)).head? = some f.1.coreOrderId := by
  have hlive : Live manager (Levels.queue (crossingLevels incoming map)) :=
    h.live.mono fun _ => mem_queue_of_mem_crossing
  have hprefix : exhaustedIds incoming.openQuantity (crossingOrders manager incoming map) ++
      [f.1.coreOrderId] <+: Levels.queue map := by
    have hmap := (Allocation.exhausted_of_partial hf hlt).map Order.coreOrderId
    rw [List.map_append, crossingOrders, hlive.map_coreOrderId] at hmap
    exact hmap.trans (queue_crossingLevels_prefix_queue incoming map)
  obtain ⟨rest, hrest⟩ := hprefix
  have hnot : f.1.coreOrderId ∉
      exhaustedIds incoming.openQuantity (crossingOrders manager incoming map) := by
    have hnodup := h.nodup
    rw [← hrest, List.append_assoc] at hnodup
    intro hmem
    exact (List.nodup_append.mp hnodup).2.2 _ hmem _ (by simp) rfl
  rw [mapAfter, Levels.queue_prune, ← hrest, List.filter_append, List.filter_append,
    List.filter_eq_nil_iff.mpr (by simp), List.filter_singleton]
  simp [hnot]

theorem finalStatus_afterFills (hcrossing : crossing manager incoming map =
    crossingOrders manager incoming map) :
    finalStatus (afterFills incoming (fillsOn manager incoming map)) =
      referenceStatus manager incoming map := by
  obtain ⟨qty, status, h⟩ := afterFills_eq incoming (fillsOn manager incoming map)
  have hopen : (afterFills incoming (fillsOn manager incoming map)).openQuantity =
      referenceRemaining manager incoming map := by
    rw [referenceRemaining, hcrossing]
    exact served_openQuantity manager incoming map
  have htype : (afterFills incoming (fillsOn manager incoming map)).orderType =
      incoming.orderType := by rw [h]; rfl
  have horiginal : (afterFills incoming (fillsOn manager incoming map)).originalQuantity =
      incoming.originalQuantity := by rw [h]; rfl
  have hmarket : incoming.originalQuantity =
      (afterFills incoming (fillsOn manager incoming map)).remainingQuantity ↔
        incoming.originalQuantity.toNat =
          (afterFills incoming (fillsOn manager incoming map)).openQuantity :=
    UInt64.toNat_inj.symm
  rw [finalStatus, referenceStatus, referenceFills_eq hcrossing, ← hopen, htype, horiginal]
  simp only [Order.remainingQuantity_eq_zero_iff, hmarket]
  by_cases hnil : fillsOn manager incoming map = []
  · rw [if_pos hnil, hnil]
    rfl
  · rw [if_neg hnil, afterFills_status hnil]

theorem served_eq_reference (hcrossing : crossing manager incoming map =
    crossingOrders manager incoming map) :
    served manager incoming map =
      (incoming.setRemainingQuantity (UInt64.ofNat (referenceRemaining manager incoming
        map))).setStatus (referenceStatus manager incoming map) := by
  obtain ⟨qty, status, h⟩ := afterFills_eq incoming (fillsOn manager incoming map)
  have hopen := served_openQuantity manager incoming map
  rw [served, finalStatus_afterFills hcrossing, h] at hopen ⊢
  have hqty : qty = UInt64.ofNat (referenceRemaining manager incoming map) := by
    rw [referenceRemaining, hcrossing, ← hopen]
    exact UInt64.ofNat_toNat.symm
  rw [hqty]
  rfl

/-- On an order that has not traded before, the cancelled market orders are
those that find nothing. -/
theorem referenceStatus_of_unfilled
    (hpos : ∀ order ∈ crossing manager incoming map, 0 < order.openQuantity)
    (h : incoming.remainingQuantity = incoming.originalQuantity) :
    referenceStatus manager incoming map =
      if referenceRemaining manager incoming map = 0 then .filled
      else if referenceFills manager incoming map = [] then
        if incoming.orderType = .market then .cancelled else incoming.status
      else .partiallyFilled := by
  have horiginal : incoming.originalQuantity.toNat = incoming.openQuantity := by
    rw [← h, Order.openQuantity]
  rw [referenceStatus, horiginal]
  by_cases hzero : referenceRemaining manager incoming map = 0
  · rw [if_pos hzero, if_pos hzero]
  rw [if_neg hzero, if_neg hzero]
  rw [referenceRemaining] at hzero ⊢
  by_cases hnil : crossing manager incoming map = []
  · simp [referenceFills, hnil]
  · have htotal := Allocation.total_pos hpos hnil
    have hfills : ¬referenceFills manager incoming map = [] := by
      rw [referenceFills, Allocation.fills_eq_nil_iff]
      rintro (hdemand | hnil')
      · omega
      · exact hnil hnil'
    rw [if_neg hfills, if_neg hfills, if_neg]
    rintro ⟨_, hmarket⟩
    omega

end Crossing

/-- `Matcher::match` agrees with the reference matcher. -/
theorem matchOrder_agrees [LinearOrder P] {manager : OrderManager P} {incoming : Order P}
    {book : OrderBook P} (h : Ready manager incoming book) (clock : Clock)
    (currentId : TradeID) (ticks : ℕ) :
    ∃ m' book', Matcher.matchOrder clock incoming.coreOrderId
        ⟨manager, currentId, ticks, []⟩ book = some (m', book') ∧
      book'.sideMap incoming.side = book.sideMap incoming.side ∧
      Agrees clock incoming ⟨manager, currentId, ticks, []⟩
        (book.sideMap incoming.side.opposite) m' (book'.sideMap incoming.side.opposite) := by
  have hmatchable := h.matchable incoming.side.opposite
  have hcrossing := crossing_eq h.orderType hmatchable.noEmpty hmatchable.live
  refine ⟨_, _, matchOrder_eq hmatchable,
    OrderBook.sideMap_setSideMap_of_ne _ (OrderSide.opposite_ne _).symm _, ?_⟩
  rw [OrderBook.sideMap_setSideMap_self]
  have hpos : ∀ order ∈ crossing manager incoming (book.sideMap incoming.side.opposite),
      0 < order.openQuantity := by
    rw [hcrossing]
    exact (hmatchable.live.mono fun _ => mem_queue_of_mem_crossing).openQuantity_pos
  have hfills := referenceFills_eq hcrossing
  have hamount : ∀ f ∈ fillsOn manager incoming (book.sideMap incoming.side.opposite),
      0 < f.2 ∧ f.2 ≤ f.1.openQuantity := by
    rw [← hfills]
    exact Allocation.fills_amount hpos
  constructor
  case trades =>
    rw [matched_trades, List.nil_append, tradesOf_eq_mapIdx, hfills]
  case trade_pos =>
    rw [matched_trades, List.nil_append]
    exact tradesOf_pos clock incoming hamount currentId ticks
  case total =>
    rw [matched_trades, List.nil_append,
      sum_tradesOf clock incoming (fun f hf => (hamount f hf).2), fillsOn, hcrossing]
    exact Allocation.sum_fills _ _
  case crossing_all => exact crossing_eq_filter (h.sorted _)
  case map_eq => rw [mapAfter, filledIds_eq hmatchable.live hcrossing]
  case noEmpty => exact Levels.noEmpty_prune _
  case front =>
    rw [hfills]
    exact fun f => head_mapAfter hmatchable
  case touched =>
    rw [hfills]
    refine fun f hf => matched_resting ?_ hf
    exact hmatchable
  case untouched =>
    rw [hfills]
    intro id hid hnot
    refine matched_other hid fun htouched => ?_
    obtain ⟨f, hf, heq⟩ := List.mem_map.mp htouched
    exact hnot f hf heq
  case incoming_order =>
    rw [matched_incoming, served_eq_reference hcrossing]
  case status => exact referenceStatus_of_unfilled hpos

/-! ## A book with two levels -/

def sampleOrder (id : OrderID) (side : OrderSide) (quantity : Quantity) (price : ℚ) : Order ℚ :=
  .create "A" id .eurusd "7" "CLIENT" side .limit .day quantity price 0

/-- Two sells at 10 and one at 11, and a buy of 9 at 11. -/
def sampleManager : OrderManager ℚ :=
  (((OrderManager.empty.write 1 (sampleOrder 1 .sell 3 10)).write 2
    (sampleOrder 2 .sell 4 10)).write 3 (sampleOrder 3 .sell 5 11)).write 4
      (sampleOrder 4 .buy 9 11)

def sampleBook : OrderBook ℚ := ⟨.eurusd, [], [(10, [1, 2]), (11, [3])]⟩

theorem ready_sample : Ready sampleManager (sampleOrder 4 .buy 9 11) sampleBook where
  incoming_mem := rfl
  incoming_open := by decide
  orderType := Or.inl rfl
  noEmpty side := by cases side <;> simp [sampleBook, OrderBook.sideMap, Levels.NoEmpty]
  sorted side := by
    cases side
    · exact List.Pairwise.nil
    · refine List.pairwise_pair.mpr ?_
      decide +kernel
  live side := by
    cases side
    · simp [Live, sampleBook, OrderBook.sideMap]
    · intro ptr hptr
      have hcases : ptr = 1 ∨ ptr = 2 ∨ ptr = 3 := by
        simpa [sampleBook, OrderBook.sideMap] using hptr
      rcases hcases with rfl | rfl | rfl
      · exact ⟨sampleOrder 1 .sell 3 10, rfl, rfl, by decide⟩
      · exact ⟨sampleOrder 2 .sell 4 10, rfl, rfl, by decide⟩
      · exact ⟨sampleOrder 3 .sell 5 11, rfl, rfl, by decide⟩
  nodup side := by cases side <;> decide
  notMem side := by cases side <;> decide

theorem matchOrder_agrees_sample : ∃ m' book', Matcher.matchOrder (fun _ => 0) 4
      ⟨sampleManager, 0, 0, []⟩ sampleBook = some (m', book') ∧
    book'.bidMap = [] ∧
    Agrees (fun _ => 0) (sampleOrder 4 .buy 9 11) ⟨sampleManager, 0, 0, []⟩ sampleBook.askMap
      m' book'.askMap :=
  matchOrder_agrees ready_sample (fun _ => 0) 0 0

end PriceTime

end BetaTrader
