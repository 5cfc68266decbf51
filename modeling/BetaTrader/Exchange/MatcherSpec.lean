import BetaTrader.Exchange.Matcher
import BetaTrader.Lib.Allocation

/-!
# What the inner matching loop computes

The inner loop serves the incoming order greedily from the queue of a level.
`settle` applies a list of fills at once, and `matchLevel_eq` says that the loop
settles the greedy allocation along the level and pops exactly the exhausted
orders.
-/

namespace BetaTrader

variable {P : Type}

namespace Order

/-- The open quantity as a number. -/
def openQuantity (order : Order P) : ℕ := order.remainingQuantity.toNat

/-- The incoming order after a fill. -/
def takeFill (order : Order P) (amount : ℕ) : Order P :=
  (order.setRemainingQuantity (order.remainingQuantity - UInt64.ofNat amount)).setStatus
    .partiallyFilled

/-- A resting order after a fill. -/
def giveFill (order : Order P) (amount : ℕ) : Order P :=
  (order.setRemainingQuantity (order.remainingQuantity - UInt64.ofNat amount)).setStatus
    (if order.remainingQuantity - UInt64.ofNat amount = 0 then .filled else .partiallyFilled)

theorem remainingQuantity_pos_iff {order : Order P} :
    0 < order.remainingQuantity ↔ 0 < order.openQuantity := Quantity.pos_iff

theorem remainingQuantity_eq_zero_iff {order : Order P} :
    order.remainingQuantity = 0 ↔ order.openQuantity = 0 := Quantity.eq_zero_iff

theorem openQuantity_lt (order : Order P) : order.openQuantity < 2 ^ 64 :=
  UInt64.toNat_lt order.remainingQuantity

theorem toNat_sub_ofNat {a : Quantity} {n : ℕ} (h : n ≤ a.toNat) :
    (a - UInt64.ofNat n).toNat = a.toNat - n := by
  have hn : (UInt64.ofNat n).toNat = n :=
    UInt64.toNat_ofNat_of_lt' (h.trans_lt (UInt64.toNat_lt a))
  rw [UInt64.toNat_sub_of_le _ _ (by rw [UInt64.le_iff_toNat_le, hn]; exact h), hn]

theorem openQuantity_takeFill {order : Order P} {amount : ℕ} (h : amount ≤ order.openQuantity) :
    (order.takeFill amount).openQuantity = order.openQuantity - amount :=
  toNat_sub_ofNat h

theorem openQuantity_giveFill {order : Order P} {amount : ℕ} (h : amount ≤ order.openQuantity) :
    (order.giveFill amount).openQuantity = order.openQuantity - amount :=
  toNat_sub_ofNat h

theorem ofNat_min_openQuantity (order order' : Order P) :
    UInt64.ofNat (min order.openQuantity order'.openQuantity) =
      min order.remainingQuantity order'.remainingQuantity := by
  rw [openQuantity, openQuantity, ← UInt64.toNat_min, UInt64.ofNat_toNat]

end Order

namespace Matcher

/-- The trade of an incoming order with a resting one. -/
def tradeOf (clock : Clock) (incoming resting : Order P) (amount : ℕ) (tradeId : TradeID)
    (tick : ℕ) : Trade P where
  tradeId := tradeId
  orderSymbol := incoming.symbol
  buyOrderId := if incoming.side = .buy then incoming.coreOrderId else resting.coreOrderId
  sellOrderId := if incoming.side = .buy then resting.coreOrderId else incoming.coreOrderId
  quantity := UInt64.ofNat amount
  price := resting.price
  timestamp := clock tick

/-- The state after one fill of `incoming`. -/
def settleOne (clock : Clock) (incoming : Order P) (m : MatchState P) (f : Order P × ℕ) :
    MatchState P where
  manager := (m.manager.write incoming.coreOrderId (incoming.takeFill f.2)).write
    f.1.coreOrderId (f.1.giveFill f.2)
  currentId := m.currentId + 1
  ticks := m.ticks + 1
  trades := m.trades ++ [tradeOf clock incoming f.1 f.2 (m.currentId + 1) m.ticks]

/-- The state after a list of fills of `incoming`. -/
def settle (clock : Clock) : Order P → MatchState P → List (Order P × ℕ) → MatchState P
  | _, m, [] => m
  | incoming, m, f :: fs => settle clock (incoming.takeFill f.2) (settleOne clock incoming m f) fs

/-- The incoming order after a list of fills. -/
def afterFills (incoming : Order P) (fs : List (Order P × ℕ)) : Order P :=
  fs.foldl (fun order f => order.takeFill f.2) incoming

@[simp] theorem settle_nil (clock : Clock) (incoming : Order P) (m : MatchState P) :
    settle clock incoming m [] = m := rfl

@[simp] theorem afterFills_nil (incoming : Order P) : afterFills incoming [] = incoming := rfl

theorem settle_append (clock : Clock) (incoming : Order P) (m : MatchState P)
    (fs gs : List (Order P × ℕ)) :
    settle clock incoming m (fs ++ gs) =
      settle clock (afterFills incoming fs) (settle clock incoming m fs) gs := by
  induction fs generalizing incoming m with
  | nil => rfl
  | cons f fs ih => exact ih (incoming.takeFill f.2) (settleOne clock incoming m f)

/-- Fills change the quantity and the status of the incoming order only. -/
theorem afterFills_eq (incoming : Order P) (fs : List (Order P × ℕ)) :
    ∃ qty status, afterFills incoming fs =
      (incoming.setRemainingQuantity qty).setStatus status := by
  induction fs generalizing incoming with
  | nil => exact ⟨incoming.remainingQuantity, incoming.status, rfl⟩
  | cons f fs ih =>
      obtain ⟨qty, status, h⟩ := ih (incoming.takeFill f.2)
      exact ⟨qty, status, h⟩

theorem afterFills_status {incoming : Order P} {fs : List (Order P × ℕ)} (h : fs ≠ []) :
    (afterFills incoming fs).status = .partiallyFilled := by
  induction fs generalizing incoming with
  | nil => exact (h rfl).elim
  | cons f fs ih =>
      cases fs with
      | nil => rfl
      | cons g gs => exact ih (by simp)

theorem openQuantity_afterFills {incoming : Order P} {fs : List (Order P × ℕ)}
    (h : (fs.map Prod.snd).sum ≤ incoming.openQuantity) :
    (afterFills incoming fs).openQuantity = incoming.openQuantity - (fs.map Prod.snd).sum := by
  induction fs generalizing incoming with
  | nil => rfl
  | cons f fs ih =>
      rw [List.map_cons, List.sum_cons] at h ⊢
      have hfill : (incoming.takeFill f.2).openQuantity = incoming.openQuantity - f.2 :=
        Order.openQuantity_takeFill (by omega)
      have hrest : (afterFills (incoming.takeFill f.2) fs).openQuantity = _ := ih (by omega)
      change (afterFills (incoming.takeFill f.2) fs).openQuantity = _
      omega

/-! ## The inner loop -/

/-- The orders behind a list of pointers. -/
def restingOrders (manager : OrderManager P) (ptrs : List OrderPtr) : List (Order P) :=
  ptrs.filterMap manager.orderMap

/-- Every pointer leads to the order of that id, and the order is open. -/
def Live (manager : OrderManager P) (ptrs : List OrderPtr) : Prop :=
  ∀ ptr ∈ ptrs, ∃ order, manager.orderMap ptr = some order ∧ order.coreOrderId = ptr ∧
    0 < order.openQuantity

@[simp] theorem restingOrders_nil (manager : OrderManager P) : restingOrders manager [] = [] := rfl

theorem restingOrders_cons {manager : OrderManager P} {ptr : OrderPtr} {order : Order P}
    (h : manager.orderMap ptr = some order) (ptrs : List OrderPtr) :
    restingOrders manager (ptr :: ptrs) = order :: restingOrders manager ptrs := by
  simp [restingOrders, h]

theorem restingOrders_append (manager : OrderManager P) (ptrs ptrs' : List OrderPtr) :
    restingOrders manager (ptrs ++ ptrs') =
      restingOrders manager ptrs ++ restingOrders manager ptrs' :=
  List.filterMap_append

theorem restingOrders_congr {manager manager' : OrderManager P} {ptrs : List OrderPtr}
    (h : ∀ ptr ∈ ptrs, manager.orderMap ptr = manager'.orderMap ptr) :
    restingOrders manager ptrs = restingOrders manager' ptrs :=
  List.filterMap_congr h

theorem Live.congr {manager manager' : OrderManager P} {ptrs : List OrderPtr}
    (h : Live manager ptrs) (heq : ∀ ptr ∈ ptrs, manager.orderMap ptr = manager'.orderMap ptr) :
    Live manager' ptrs := by
  intro ptr hptr
  rw [← heq ptr hptr]
  exact h ptr hptr

theorem Live.mono {manager : OrderManager P} {ptrs ptrs' : List OrderPtr}
    (h : Live manager ptrs) (hsub : ∀ ptr ∈ ptrs', ptr ∈ ptrs) : Live manager ptrs' :=
  fun ptr hptr => h ptr (hsub ptr hptr)

theorem Live.map_coreOrderId {manager : OrderManager P} {ptrs : List OrderPtr}
    (h : Live manager ptrs) :
    (restingOrders manager ptrs).map Order.coreOrderId = ptrs := by
  induction ptrs with
  | nil => rfl
  | cons ptr ptrs ih =>
      obtain ⟨order, horder, hid, _⟩ := h ptr (by simp)
      rw [restingOrders_cons horder, List.map_cons, hid,
        ih (h.mono fun p hp => List.mem_cons_of_mem ptr hp)]

theorem Live.mem_restingOrders {manager : OrderManager P} {ptrs : List OrderPtr}
    (h : Live manager ptrs) {order : Order P} :
    order ∈ restingOrders manager ptrs ↔
      order.coreOrderId ∈ ptrs ∧ manager.orderMap order.coreOrderId = some order := by
  constructor
  · intro horder
    obtain ⟨ptr, hptr, hget⟩ := List.mem_filterMap.mp horder
    obtain ⟨order', horder', hid, _⟩ := h ptr hptr
    have heq : order' = order := Option.some.inj (horder'.symm.trans hget)
    rw [← heq, hid]
    exact ⟨hptr, horder'⟩
  · rintro ⟨hptr, hget⟩
    exact List.mem_filterMap.mpr ⟨_, hptr, hget⟩

theorem Live.openQuantity_pos {manager : OrderManager P} {ptrs : List OrderPtr}
    (h : Live manager ptrs) : ∀ order ∈ restingOrders manager ptrs, 0 < order.openQuantity := by
  intro order horder
  obtain ⟨hptr, hget⟩ := h.mem_restingOrders.mp horder
  obtain ⟨order', horder', _, hpos⟩ := h _ hptr
  exact Option.some.inj (hget.symm.trans horder') ▸ hpos

section Settled

variable {clock : Clock} {incoming : Order P} {m : MatchState P}

theorem settleOne_incoming {resting : Order P} {amount : ℕ}
    (hne : incoming.coreOrderId ≠ resting.coreOrderId) :
    (settleOne clock incoming m (resting, amount)).manager.orderMap incoming.coreOrderId =
      some (incoming.takeFill amount) := by
  simp [settleOne, OrderManager.write_orderMap_of_ne _ _ hne]

theorem settleOne_resting {resting : Order P} {amount : ℕ} :
    (settleOne clock incoming m (resting, amount)).manager.orderMap resting.coreOrderId =
      some (resting.giveFill amount) := by
  simp [settleOne]

theorem settleOne_other {resting : Order P} {amount : ℕ} {ptr : OrderPtr}
    (hi : ptr ≠ incoming.coreOrderId) (hr : ptr ≠ resting.coreOrderId) :
    (settleOne clock incoming m (resting, amount)).manager.orderMap ptr =
      m.manager.orderMap ptr := by
  simp [settleOne, OrderManager.write_orderMap_of_ne _ _ hi,
    OrderManager.write_orderMap_of_ne _ _ hr]

/-- One pass of the inner loop settles one fill. -/
theorem fillFront_eq {resting : Order P}
    (hi : m.manager.orderMap incoming.coreOrderId = some incoming)
    (hr : m.manager.orderMap resting.coreOrderId = some resting)
    (hne : incoming.coreOrderId ≠ resting.coreOrderId) :
    fillFront clock incoming.coreOrderId resting.coreOrderId m =
      some (settleOne clock incoming m
        (resting, min incoming.openQuantity resting.openQuantity)) := by
  simp only [fillFront, settleOne, tradeOf, Order.takeFill, Order.giveFill,
    Order.ofNat_min_openQuantity, OrderManager.deref, hi, hr, Option.bind_eq_bind,
    Option.bind_some]
  rw [OrderManager.modify_eq hi, Option.bind_some, OrderManager.modify_eq
    (by rw [OrderManager.write_orderMap_of_ne _ _ hne.symm]; exact hr), Option.bind_some,
    OrderManager.modify_eq (by rw [OrderManager.write_orderMap_of_ne _ _ hne,
      OrderManager.write_orderMap_self]), Option.bind_some,
    OrderManager.modify_eq (by rw [OrderManager.write_orderMap_of_ne _ _ hne.symm,
      OrderManager.write_orderMap_self]), Option.bind_some]
  rw [OrderManager.write_comm _ hne.symm, OrderManager.write_write, OrderManager.write_write]
  rfl

/-- The ids of the orders that a demand uses up. -/
def exhaustedIds (demand : ℕ) (orders : List (Order P)) : List OrderID :=
  (Allocation.exhausted Order.openQuantity demand orders).map Order.coreOrderId

theorem exhaustedIds_subset {manager : OrderManager P} {ptrs : List OrderPtr}
    (h : Live manager ptrs) (demand : ℕ) :
    ∀ id ∈ exhaustedIds demand (restingOrders manager ptrs), id ∈ ptrs := by
  intro id hid
  obtain ⟨order, horder, rfl⟩ := List.mem_map.mp hid
  exact (h.mem_restingOrders.mp ((Allocation.exhausted_prefix_queue _ _).subset horder)).1

/-- The inner loop settles the greedy allocation along the level and keeps the
orders that are not exhausted.  The induction follows the level; a fill leaves
the orders further back and their capacities as they were. -/
theorem matchLevel_eq {level : PriceLevel}
    (hi : m.manager.orderMap incoming.coreOrderId = some incoming)
    (hlive : Live m.manager level) (hnodup : level.Nodup)
    (hne : incoming.coreOrderId ∉ level) :
    matchLevel clock incoming.coreOrderId m level =
      some (settle clock incoming m (Allocation.fills Order.openQuantity incoming.openQuantity
          (restingOrders m.manager level)),
        level.filter fun ptr => ptr ∉
          exhaustedIds incoming.openQuantity (restingOrders m.manager level)) := by
  induction level generalizing m incoming with
  | nil => rfl
  | cons ptr level ih =>
      obtain ⟨resting, hr, rfl, hpos⟩ := hlive ptr (by simp)
      obtain ⟨hptr, hnodup⟩ := List.nodup_cons.mp hnodup
      have hneResting : incoming.coreOrderId ≠ resting.coreOrderId :=
        fun h => hne (h ▸ List.mem_cons_self)
      have hneLevel : incoming.coreOrderId ∉ level := fun h => hne (List.mem_cons_of_mem _ h)
      rw [restingOrders_cons hr]
      simp only [matchLevel, OrderManager.deref, hi, Option.bind_eq_bind, Option.bind_some,
        fillFront_eq hi hr hneResting, settleOne_resting, Order.remainingQuantity_pos_iff,
        Order.remainingQuantity_eq_zero_iff]
      by_cases hopen : 0 < incoming.openQuantity
      · rw [if_pos hopen]
        have hamount : min incoming.openQuantity resting.openQuantity ≤ resting.openQuantity :=
          Nat.min_le_right _ _
        have hleft := Order.openQuantity_giveFill hamount
        by_cases hle : resting.openQuantity ≤ incoming.openQuantity
        · -- the resting order is filled and popped
          rw [if_pos (by omega)]
          have hsame : ∀ p ∈ level, m.manager.orderMap p = (settleOne clock incoming m
              (resting, min incoming.openQuantity resting.openQuantity)).manager.orderMap p := by
            intro p hp
            exact (settleOne_other (fun h => hneLevel (h ▸ hp)) (fun h => hptr (h ▸ hp))).symm
          have hlive' : Live m.manager level := hlive.mono fun p hp => List.mem_cons_of_mem _ hp
          have hmin : min incoming.openQuantity resting.openQuantity = resting.openQuantity := by
            omega
          have hdemand : (incoming.takeFill
              (min incoming.openQuantity resting.openQuantity)).openQuantity =
                incoming.openQuantity - resting.openQuantity := by
            rw [Order.openQuantity_takeFill (Nat.min_le_left _ _), hmin]
          have hi' : (settleOne clock incoming m (resting, min incoming.openQuantity
              resting.openQuantity)).manager.orderMap (incoming.takeFill (min incoming.openQuantity
                resting.openQuantity)).coreOrderId = some (incoming.takeFill _) :=
            settleOne_incoming hneResting
          have hrest := ih hi' (hlive'.congr hsame) hnodup hneLevel
          rw [← restingOrders_congr hsame, hdemand] at hrest
          have hfilter : (resting.coreOrderId :: level).filter (fun p => p ∉
              exhaustedIds incoming.openQuantity (resting :: restingOrders m.manager level)) =
              level.filter fun p => p ∉ exhaustedIds
                (incoming.openQuantity - resting.openQuantity) (restingOrders m.manager level) := by
            have hids : exhaustedIds incoming.openQuantity
                (resting :: restingOrders m.manager level) = resting.coreOrderId :: exhaustedIds
                  (incoming.openQuantity - resting.openQuantity)
                  (restingOrders m.manager level) := by
              simp [exhaustedIds, Allocation.exhausted, hopen.ne', hle]
            rw [hids, List.filter_cons_of_neg (by simp)]
            apply List.filter_congr
            intro p hp
            have hpne : p ≠ resting.coreOrderId := fun h => hptr (h ▸ hp)
            simp [hpne]
          rw [Allocation.fills_cons hopen.ne', settle, hfilter]
          rw [hmin] at hrest ⊢
          exact hrest
        · -- the incoming order is used up
          rw [if_neg (by omega)]
          have hmin : incoming.openQuantity -
              min incoming.openQuantity resting.openQuantity = 0 := by omega
          have hids : exhaustedIds incoming.openQuantity
              (resting :: restingOrders m.manager level) = [] := by
            simp [exhaustedIds, Allocation.exhausted, hopen.ne', hle]
          rw [Allocation.fills_cons hopen.ne', hmin, Allocation.fills_zero, hids]
          simp [settle]
      · have hzero : incoming.openQuantity = 0 := by omega
        rw [if_neg hopen, hzero]
        simp [exhaustedIds]

end Settled

/-! ## Lists of fills -/

/-- The trades of a list of fills, with their ids and clock readings. -/
def tradesOf (clock : Clock) (incoming : Order P) :
    List (Order P × ℕ) → TradeID → ℕ → List (Trade P)
  | [], _, _ => []
  | f :: fs, currentId, tick =>
      tradeOf clock incoming f.1 f.2 (currentId + 1) tick ::
        tradesOf clock incoming fs (currentId + 1) (tick + 1)

theorem mem_tradesOf {clock : Clock} {incoming : Order P} {fs : List (Order P × ℕ)}
    {currentId : TradeID} {tick : ℕ} {trade : Trade P}
    (h : trade ∈ tradesOf clock incoming fs currentId tick) :
    ∃ f ∈ fs, ∃ tradeId tick', trade = tradeOf clock incoming f.1 f.2 tradeId tick' := by
  induction fs generalizing currentId tick with
  | nil => simp [tradesOf] at h
  | cons f fs ih =>
      rcases List.mem_cons.mp h with rfl | h
      · exact ⟨f, by simp, _, _, rfl⟩
      · obtain ⟨g, hg, hrest⟩ := ih h
        exact ⟨g, List.mem_cons_of_mem f hg, hrest⟩

theorem tradeOf_mem_tradesOf (clock : Clock) (incoming : Order P) {fs : List (Order P × ℕ)}
    {f : Order P × ℕ} (hf : f ∈ fs) (currentId : TradeID) (tick : ℕ) : ∃ tradeId tick',
      tradeOf clock incoming f.1 f.2 tradeId tick' ∈ tradesOf clock incoming fs currentId tick := by
  induction fs generalizing currentId tick with
  | nil => simp at hf
  | cons g fs ih =>
      rcases List.mem_cons.mp hf with rfl | hf
      · exact ⟨_, _, List.mem_cons_self⟩
      · obtain ⟨tradeId, tick', hmem⟩ := ih hf (currentId + 1) (tick + 1)
        exact ⟨tradeId, tick', List.mem_cons_of_mem _ hmem⟩

@[simp] theorem length_tradesOf (clock : Clock) (incoming : Order P) (fs : List (Order P × ℕ))
    (currentId : TradeID) (tick : ℕ) :
    (tradesOf clock incoming fs currentId tick).length = fs.length := by
  induction fs generalizing currentId tick with
  | nil => rfl
  | cons f fs ih => rw [tradesOf, List.length_cons, ih, List.length_cons]

theorem map_tradeId_tradesOf (clock : Clock) (incoming : Order P) (fs : List (Order P × ℕ))
    (currentId : TradeID) (tick : ℕ) :
    (tradesOf clock incoming fs currentId tick).map Trade.tradeId =
      List.range' (currentId + 1) fs.length := by
  induction fs generalizing currentId tick with
  | nil => rfl
  | cons f fs ih =>
      rw [tradesOf, List.map_cons, ih, List.length_cons, List.range'_succ]
      rfl

theorem sum_tradesOf (clock : Clock) (incoming : Order P) {fs : List (Order P × ℕ)}
    (hfs : ∀ f ∈ fs, f.2 ≤ f.1.openQuantity) (currentId : TradeID) (tick : ℕ) :
    ((tradesOf clock incoming fs currentId tick).map fun t => t.quantity.toNat).sum =
      (fs.map Prod.snd).sum := by
  induction fs generalizing currentId tick with
  | nil => rfl
  | cons f fs ih =>
      have hf : (UInt64.ofNat f.2).toNat = f.2 :=
        UInt64.toNat_ofNat_of_lt' ((hfs f (by simp)).trans_lt f.1.openQuantity_lt)
      rw [tradesOf, List.map_cons, List.sum_cons, ih fun g hg => hfs g (List.mem_cons_of_mem f hg),
        List.map_cons, List.sum_cons]
      exact congrArg (· + (fs.map Prod.snd).sum) hf

/-- The trades stand in the order of their fills. -/
theorem mem_zip_tradesOf {clock : Clock} {incoming : Order P} {fs : List (Order P × ℕ)}
    {currentId : TradeID} {tick : ℕ} {p : (Order P × ℕ) × Trade P}
    (h : p ∈ fs.zip (tradesOf clock incoming fs currentId tick)) :
    ∃ tradeId tick', p.2 = tradeOf clock incoming p.1.1 p.1.2 tradeId tick' := by
  induction fs generalizing currentId tick with
  | nil => simp at h
  | cons f fs ih =>
      rw [tradesOf, List.zip_cons_cons] at h
      rcases List.mem_cons.mp h with rfl | h
      · exact ⟨_, _, rfl⟩
      · exact ih h

/-- The incoming order takes part in its trades. -/
theorem tradeOf_incoming (clock : Clock) (incoming resting : Order P) (amount : ℕ)
    (tradeId : TradeID) (tick : ℕ) :
    (tradeOf clock incoming resting amount tradeId tick).buyOrderId = incoming.coreOrderId ∨
      (tradeOf clock incoming resting amount tradeId tick).sellOrderId =
        incoming.coreOrderId := by
  by_cases hside : incoming.side = .buy <;> simp [tradeOf, hside]

/-- The ids of the orders that a list of fills touches. -/
def touchedIds (fs : List (Order P × ℕ)) : List OrderID := fs.map fun f => f.1.coreOrderId

@[simp] theorem touchedIds_nil : touchedIds ([] : List (Order P × ℕ)) = [] := rfl

@[simp] theorem touchedIds_cons (f : Order P × ℕ) (fs : List (Order P × ℕ)) :
    touchedIds (f :: fs) = f.1.coreOrderId :: touchedIds fs := rfl

section Fills

variable {clock : Clock} {incoming : Order P} {m : MatchState P} {fs : List (Order P × ℕ)}

@[simp] theorem afterFills_coreOrderId :
    (afterFills incoming fs).coreOrderId = incoming.coreOrderId := by
  obtain ⟨qty, status, h⟩ := afterFills_eq incoming fs
  rw [h]
  rfl

/-- Quantity and status of the incoming order do not show in its trades. -/
theorem tradesOf_set (qty : Quantity) (status : OrderStatus) (currentId : TradeID) (tick : ℕ) :
    tradesOf clock ((incoming.setRemainingQuantity qty).setStatus status) fs currentId tick =
      tradesOf clock incoming fs currentId tick := by
  induction fs generalizing currentId tick with
  | nil => rfl
  | cons f fs ih => rw [tradesOf, tradesOf, ih]; rfl

@[simp] theorem settle_trades (clock : Clock) (incoming : Order P) (m : MatchState P)
    (fs : List (Order P × ℕ)) : (settle clock incoming m fs).trades =
      m.trades ++ tradesOf clock incoming fs m.currentId m.ticks := by
  induction fs generalizing incoming m with
  | nil => simp [tradesOf]
  | cons f fs ih =>
      rw [settle, ih, Order.takeFill, tradesOf_set, tradesOf]
      simp [settleOne]

@[simp] theorem settle_currentId (clock : Clock) (incoming : Order P) (m : MatchState P)
    (fs : List (Order P × ℕ)) :
    (settle clock incoming m fs).currentId = m.currentId + fs.length := by
  induction fs generalizing incoming m with
  | nil => rfl
  | cons f fs ih =>
      rw [settle, ih, List.length_cons]
      exact Nat.add_right_comm m.currentId 1 fs.length

@[simp] theorem settle_ticks (clock : Clock) (incoming : Order P) (m : MatchState P)
    (fs : List (Order P × ℕ)) :
    (settle clock incoming m fs).ticks = m.ticks + fs.length := by
  induction fs generalizing incoming m with
  | nil => rfl
  | cons f fs ih =>
      rw [settle, ih, List.length_cons]
      exact Nat.add_right_comm m.ticks 1 fs.length

@[simp] theorem settle_destroyed (clock : Clock) (incoming : Order P) (m : MatchState P)
    (fs : List (Order P × ℕ)) :
    (settle clock incoming m fs).manager.destroyed = m.manager.destroyed := by
  induction fs generalizing incoming m with
  | nil => rfl
  | cons f fs ih => rw [settle, ih]; rfl

/-- Orders that take no part are left as they were. -/
theorem settle_other {ptr : OrderPtr} (hi : ptr ≠ incoming.coreOrderId)
    (hfs : ptr ∉ touchedIds fs) :
    (settle clock incoming m fs).manager.orderMap ptr = m.manager.orderMap ptr := by
  induction fs generalizing incoming m with
  | nil => rfl
  | cons f fs ih =>
      rw [touchedIds_cons, List.mem_cons, not_or] at hfs
      exact Eq.trans (ih hi hfs.2) (settleOne_other hi hfs.1)

theorem settle_incoming (hi : m.manager.orderMap incoming.coreOrderId = some incoming)
    (hfs : incoming.coreOrderId ∉ touchedIds fs) :
    (settle clock incoming m fs).manager.orderMap incoming.coreOrderId =
      some (afterFills incoming fs) := by
  induction fs generalizing incoming m with
  | nil => exact hi
  | cons f fs ih =>
      rw [touchedIds_cons, List.mem_cons, not_or] at hfs
      exact ih (settleOne_incoming hfs.1) hfs.2

theorem settle_resting (hnodup : (touchedIds fs).Nodup)
    (hfs : incoming.coreOrderId ∉ touchedIds fs) {f : Order P × ℕ} (hf : f ∈ fs) :
    (settle clock incoming m fs).manager.orderMap f.1.coreOrderId =
      some (f.1.giveFill f.2) := by
  induction fs generalizing incoming m with
  | nil => simp at hf
  | cons g fs ih =>
      rw [touchedIds_cons, List.mem_cons, not_or] at hfs
      rw [touchedIds_cons, List.nodup_cons] at hnodup
      rcases List.mem_cons.mp hf with rfl | hf
      · rw [settle]
        exact Eq.trans (settle_other (Ne.symm hfs.1) hnodup.1) settleOne_resting
      · exact ih hnodup.2 hfs.2 hf

end Fills

/-- The allocation touches the front of the queue. -/
theorem touchedIds_fills {manager : OrderManager P} {ptrs : List OrderPtr}
    (h : Live manager ptrs) (demand : ℕ) :
    touchedIds (Allocation.fills Order.openQuantity demand (restingOrders manager ptrs)) <+:
      ptrs := by
  have hprefix : (Allocation.fills Order.openQuantity demand
      (restingOrders manager ptrs)).map Prod.fst <+: restingOrders manager ptrs :=
    Allocation.fills_prefix_queue demand _
  have hmap := hprefix.map Order.coreOrderId
  rw [List.map_map, h.map_coreOrderId] at hmap
  exact hmap

theorem sum_fills_restingOrders (demand : ℕ) (orders : List (Order P)) :
    ((Allocation.fills Order.openQuantity demand orders).map Prod.snd).sum =
      min demand (Allocation.total Order.openQuantity orders) :=
  Allocation.sum_fills demand orders

theorem exhaustedIds_append {manager : OrderManager P} {ptrs : List OrderPtr}
    (h : Live manager ptrs) (demand : ℕ) (orders : List (Order P)) :
    exhaustedIds demand (restingOrders manager ptrs ++ orders) =
      exhaustedIds demand (restingOrders manager ptrs) ++
        exhaustedIds (demand - Allocation.total Order.openQuantity (restingOrders manager ptrs))
          orders := by
  rw [exhaustedIds, Allocation.exhausted_append h.openQuantity_pos, List.map_append]
  rfl

end Matcher

end BetaTrader
