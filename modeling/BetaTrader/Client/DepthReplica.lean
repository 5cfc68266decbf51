import BetaTrader.Client.OrderBook
import BetaTrader.Exchange.Execution
import BetaTrader.Lib.Lists

/-!
# The client's depth

The client applies a snapshot of a partition's book and then every refresh that
the partition publishes.  A refresh speaks of one order, while the client keeps
one quantity for a price, and fills are not published at all: the client's maps
are the depth of the book only as long as no command trades and no price has
more than one order coming or going.
-/

namespace BetaTrader

variable {P : Type}

namespace Client.OrderBook

variable [DecidableEq P]

/-- The client's book after refreshes that arrive in order. -/
def handleAll (client : OrderBook P) (refreshes : List (MarketDataIncrementalRefresh P)) :
    OrderBook P :=
  refreshes.foldl handleIncremental client

/-- An entry about an order that has left erases its price. -/
theorem sideMap_handle_delete (client : OrderBook P) (book : BetaTrader.OrderBook P)
    (order : Order P) (entryTime : Timestamp) (side : OrderSide) (price : P) :
    (client.handleIncremental (book.refresh .delete order entryTime)).sideMap side price =
      if side = order.side ∧ price = order.price then none else client.sideMap side price := by
  cases side <;> cases horder : order.side <;>
    simp [handleIncremental, BetaTrader.OrderBook.refresh, updateLevel, updateMap, sideMap,
      horder, OrderSide.entryType, Function.update_apply]

/-- An entry about an open order replaces what was known of its price. -/
theorem sideMap_handle_new (client : OrderBook P) (book : BetaTrader.OrderBook P)
    {order : Order P} (hopen : order.remainingQuantity ≠ 0) (entryTime : Timestamp)
    (side : OrderSide) (price : P) :
    (client.handleIncremental (book.refresh .new order entryTime)).sideMap side price =
      if side = order.side ∧ price = order.price then some order.remainingQuantity
      else client.sideMap side price := by
  cases side <;> cases horder : order.side <;>
    simp [handleIncremental, BetaTrader.OrderBook.refresh, updateLevel, updateMap, sideMap,
      horder, OrderSide.entryType, Function.update_apply, hopen]

/-- An entry of a snapshot replaces what was known of its price. -/
theorem sideMap_setLevel {client : OrderBook P} {entry : MarketDataEntry P} {side : OrderSide}
    (h : entry.entryType = side.entryType) {side' : OrderSide} {price : P} :
    (client.setLevel entry).sideMap side' price =
      if side' = side ∧ price = entry.price then some entry.size
      else client.sideMap side' price := by
  cases side <;> cases side' <;>
    simp [setLevel, h, OrderSide.entryType, sideMap, Function.update_apply]

end Client.OrderBook

namespace Event

/-- The refreshes handed to the publisher. -/
def refreshes : Event P → List (MarketDataIncrementalRefresh P)
  | .refreshed refresh => [refresh]
  | _ => []

end Event

namespace Partition

open Matcher

def refreshes (s : Partition P) : List (MarketDataIncrementalRefresh P) :=
  s.journal.flatMap Event.refreshes

section Depth

variable [DecidableEq P]

/-- The orders that rest at a price, in queue order. -/
def restingAt (s : Partition P) (side : OrderSide) (price : P) : List (Order P) :=
  (restingOrders s.orderManager (Levels.queue (s.orderBook.sideMap side))).filter
    fun order => order.price = price

/-- The orders that rest at a price beside the order `id`. -/
def othersAt (s : Partition P) (id : OrderID) (side : OrderSide) (price : P) : List (Order P) :=
  (s.restingAt side price).filter fun order => order.coreOrderId ≠ id

/-- The sum of the open quantities; `none` when there is no order. -/
def depthOf (orders : List (Order P)) : Option ℕ :=
  if orders = [] then none else some (Allocation.total Order.openQuantity orders)

/-- The aggregated depth of the book. -/
def depth (s : Partition P) (side : OrderSide) (price : P) : Option ℕ :=
  depthOf (s.restingAt side price)

/-- The client's maps show the depth of the book. -/
def Replicated (s : Partition P) (client : Client.OrderBook P) : Prop :=
  ∀ side price, (client.sideMap side price).map UInt64.toNat = s.depth side price

omit [DecidableEq P] in
theorem depthOf_perm {orders orders' : List (Order P)} (h : orders.Perm orders') :
    depthOf orders = depthOf orders' := by
  have hnil : orders = [] ↔ orders' = [] := by
    rw [← List.length_eq_zero_iff, ← List.length_eq_zero_iff, h.length_eq]
  have htotal : Allocation.total Order.openQuantity orders =
      Allocation.total Order.openQuantity orders' := (h.map _).sum_eq
  simp only [depthOf, hnil, htotal]

omit [DecidableEq P] in
theorem depthOf_eq_none_iff {orders : List (Order P)} : depthOf orders = none ↔ orders = [] := by
  simp [depthOf]

/-! ## The orders at a price -/

theorem mem_othersAt {s : Partition P} {id : OrderID} {side : OrderSide} {price : P}
    {order : Order P} :
    order ∈ s.othersAt id side price ↔ order ∈ s.restingAt side price ∧ order.coreOrderId ≠ id := by
  rw [othersAt, List.mem_filter, decide_eq_true_eq]

end Depth

section Resting

variable [FinitePrice P] {ids : List OrderID} {s s' : Partition P} {order : Order P}
  {cmd : Command P} {clock : Clock} {side : OrderSide} {price : P}

theorem mem_restingAt (hinv : s.Invariant ids) :
    order ∈ s.restingAt side price ↔ s.orderBook.Contains order.coreOrderId ∧
      s.orderManager.orderMap order.coreOrderId = some order ∧
        order.side = side ∧ order.price = price := by
  rw [restingAt, List.mem_filter, decide_eq_true_eq, (hinv.book side).sound.live.mem_restingOrders]
  constructor
  · rintro ⟨⟨hmem, horder⟩, hprice⟩
    obtain ⟨_, order', horder', _, hside, _⟩ := (hinv.book side).rests.of_mem hmem
    rw [Option.some.inj (horder'.symm.trans horder)] at hside
    exact ⟨OrderBook.contains_iff.mpr ⟨side, hmem⟩, horder, hside, hprice⟩
  · rintro ⟨hcontains, horder, rfl, hprice⟩
    obtain ⟨order', horder', _, _, hmem⟩ := hinv.book.sound.contains_orderMap hcontains
    rw [Option.some.inj (horder'.symm.trans horder)] at hmem
    exact ⟨⟨hmem, horder⟩, hprice⟩

theorem nodup_ids_restingAt (hinv : s.Invariant ids) (side : OrderSide) (price : P) :
    ((s.restingAt side price).map Order.coreOrderId).Nodup := by
  refine List.Nodup.sublist (List.filter_sublist.map _) ?_
  rw [(hinv.book side).sound.live.map_coreOrderId]
  exact (hinv.book side).nodup

theorem nodup_restingAt (hinv : s.Invariant ids) (side : OrderSide) (price : P) :
    (s.restingAt side price).Nodup :=
  List.Nodup.of_map _ (nodup_ids_restingAt hinv side price)

/-- An order that is in the book rests at its own price. -/
theorem mem_restingAt_self (hinv : s.Invariant ids)
    (horder : s.orderManager.orderMap order.coreOrderId = some order)
    (hcontains : s.orderBook.Contains order.coreOrderId) :
    order ∈ s.restingAt order.side order.price :=
  (mem_restingAt hinv).mpr ⟨hcontains, horder, rfl, rfl⟩

theorem openQuantity_of_mem_restingAt (hinv : s.Invariant ids)
    (h : order ∈ s.restingAt side price) : 0 < order.openQuantity := by
  obtain ⟨hcontains, horder, _⟩ := (mem_restingAt hinv).mp h
  obtain ⟨order', horder', _, hopen, _⟩ := hinv.book.sound.contains_orderMap hcontains
  rwa [Option.some.inj (horder'.symm.trans horder)] at hopen

/-- Where the order is not, the others are all. -/
theorem othersAt_eq_restingAt (hinv : s.Invariant ids) {id : OrderID}
    (h : ∀ order, s.orderManager.orderMap id = some order → s.orderBook.Contains id →
      ¬(side = order.side ∧ price = order.price)) :
    s.othersAt id side price = s.restingAt side price := by
  refine List.filter_eq_self.mpr fun order horder => ?_
  obtain ⟨hcontains, hget, rfl, rfl⟩ := (mem_restingAt hinv).mp horder
  simp only [ne_eq, decide_eq_true_eq]
  rintro rfl
  exact h order hget hcontains ⟨rfl, rfl⟩

/-! ## The commands -/

/-- A cancelled order leaves the others. -/
theorem cancelled_restingAt {ids' : List OrderID} (hinv : s.Invariant ids)
    (hinv' : s'.Invariant ids') {id : OrderID}
    (hbook : s'.orderBook = s.orderBook.without id)
    (hmanager : s'.orderManager = s.orderManager.removeOrderById id) :
    (s'.restingAt side price).Perm (s.othersAt id side price) := by
  refine (List.perm_ext_iff_of_nodup (nodup_restingAt hinv' side price)
    ((nodup_restingAt hinv side price).filter _)).mpr fun order => ?_
  rw [mem_restingAt hinv', ← othersAt, mem_othersAt, mem_restingAt hinv, hbook, hmanager,
    OrderBook.contains_without, OrderManager.removeOrderById_orderMap]
  by_cases hid : order.coreOrderId = id <;> simp [hid]

/-- An order that the matcher reaches rests on the other side. -/
theorem mem_restingAt_of_mem_crossing (hinv : s.Invariant ids) {resting : Order P}
    (h : resting ∈ s.crossing order) :
    resting ∈ s.restingAt order.side.opposite resting.price := by
  have hlive : Live s.orderManager (Levels.queue (s.otherSide order)) := (hinv.book _).sound.live
  have hmem := (hlive.mono fun _ => mem_queue_of_mem_crossing).mem_restingOrders.mp h
  rw [restingAt, List.mem_filter, decide_eq_true_eq, (hinv.book _).sound.live.mem_restingOrders]
  exact ⟨⟨mem_queue_of_mem_crossing hmem.1, hmem.2⟩, rfl⟩

/-- An order that trades nothing joins the others at its price, if it comes to
rest. -/
theorem executed_restingAt (hinv : s.Invariant ids) (hcmd : Admissible ids cmd)
    (h : s.incomingOrder cmd = some order) (clock : Clock) (hfills : s.fills order = []) :
    ((s.executed clock order cmd).restingAt side price).Perm
      ((if s.Remains order ∧ side = order.side ∧ price = order.price then [s.served order]
        else []) ++ s.othersAt order.coreOrderId side price) := by
  have hinv' : (s.executed clock order cmd).Invariant (ids ++ cmd.newIds) :=
    (hinv.prepared hcmd h clock).afterAll
  obtain ⟨qty, status, hserved⟩ := s.served_set order
  have hnodup : ((if s.Remains order ∧ side = order.side ∧ price = order.price
      then [s.served order] else []) ++ s.othersAt order.coreOrderId side price).Nodup := by
    refine List.nodup_append.mpr ⟨by split_ifs <;> simp,
      (nodup_restingAt hinv side price).filter _, ?_⟩
    rintro resting hresting _ hother rfl
    split_ifs at hresting with hjoins
    · refine (mem_othersAt.mp hother).2 ?_
      rw [List.mem_singleton.mp hresting, served_coreOrderId]
    · exact List.not_mem_nil hresting
  refine (List.perm_ext_iff_of_nodup (nodup_restingAt hinv' side price) hnodup).mpr
    fun resting => ?_
  rw [mem_restingAt hinv', List.mem_append, mem_othersAt, mem_restingAt hinv,
    executed_contains hinv.sound hcmd h]
  by_cases hid : resting.coreOrderId = order.coreOrderId
  · rw [if_pos hid, hid, executed_incoming hinv.sound hcmd h]
    constructor
    · rintro ⟨hremains, hget, rfl, rfl⟩
      rw [if_pos hremains, Option.some.injEq] at hget
      have hplace : resting.side = order.side ∧ resting.price = order.price := by
        rw [← hget, hserved]
        exact ⟨rfl, rfl⟩
      rw [if_pos ⟨hremains, hplace⟩, hget]
      exact Or.inl List.mem_cons_self
    · rintro (hmem | ⟨_, hne⟩)
      · split_ifs at hmem with hjoins
        · obtain ⟨hremains, rfl, rfl⟩ := hjoins
          rw [if_pos hremains, List.mem_singleton.mp hmem, hserved]
          exact ⟨hremains, rfl, rfl, rfl⟩
        · exact (List.not_mem_nil hmem).elim
      · exact (hne rfl).elim
  · have hnotServed : resting ∉ (if s.Remains order ∧ side = order.side ∧ price = order.price
        then [s.served order] else []) := by
      split_ifs
      · rw [List.mem_singleton]
        rintro rfl
        exact hid served_coreOrderId
      · exact List.not_mem_nil
    have hsame : (s.executed clock order cmd).orderManager.orderMap resting.coreOrderId =
        s.orderManager.orderMap resting.coreOrderId := by
      rcases executed_other hinv.sound hcmd h clock hid with ⟨_, hsame⟩ | ⟨f, hf, _⟩
      · exact hsame
      · rw [hfills] at hf
        exact (List.not_mem_nil hf).elim
    rw [if_neg hid, hsame]
    simp [hnotServed, hid, hfills]

/-- What the order behind an id has open, `0` if there is none. -/
def openOf (s : Partition P) (id : OrderID) : ℕ :=
  (s.orderManager.orderMap id).elim 0 Order.openQuantity

theorem total_restingAt (hinv : s.Invariant ids) (side : OrderSide) (price : P) :
    Allocation.total Order.openQuantity (s.restingAt side price) =
      (((s.restingAt side price).map Order.coreOrderId).map s.openOf).sum := by
  rw [Allocation.total, List.map_map]
  refine congrArg List.sum (List.map_congr_left fun order horder => ?_)
  rw [Function.comp_apply, openOf, ((mem_restingAt hinv).mp horder).2.1]
  rfl

/-- An order of the other side that rests after the match did so before, and has
not more open. -/
theorem executed_resting_opposite (hinv : s.Invariant ids) (hcmd : Admissible ids cmd)
    (h : s.incomingOrder cmd = some order) (clock : Clock) {resting : Order P}
    (hmem : resting ∈ (s.executed clock order cmd).restingAt order.side.opposite price) :
    ∃ old ∈ s.restingAt order.side.opposite price, old.coreOrderId = resting.coreOrderId ∧
      resting.openQuantity ≤ old.openQuantity ∧
      ∀ f ∈ s.fills order, f.1.coreOrderId = resting.coreOrderId →
        resting.openQuantity < old.openQuantity := by
  have hinv' : (s.executed clock order cmd).Invariant (ids ++ cmd.newIds) :=
    (hinv.prepared hcmd h clock).afterAll
  obtain ⟨hcontains, hget, hside, hprice⟩ := (mem_restingAt hinv').mp hmem
  have hid : resting.coreOrderId ≠ order.coreOrderId := by
    intro hid
    rw [hid, executed_incoming hinv.sound hcmd h] at hget
    split_ifs at hget
    rw [← Option.some.inj hget, served_side] at hside
    exact OrderSide.opposite_ne order.side hside.symm
  rw [executed_contains hinv.sound hcmd h, if_neg hid] at hcontains
  rcases executed_other hinv.sound hcmd h clock hid with
    ⟨huntouched, hsame⟩ | ⟨f, hf, hfid, hold, ⟨_, _, hgone⟩ | ⟨_, hgiven⟩⟩
  · refine ⟨resting, (mem_restingAt hinv).mpr ⟨hcontains.1, hsame ▸ hget, hside, hprice⟩, rfl,
      le_rfl, fun f hf hfid => ?_⟩
    exact (huntouched (hfid ▸ List.mem_map_of_mem hf)).elim
  · simp [hget] at hgone
  · obtain rfl := Option.some.inj (hget.symm.trans hgiven)
    obtain ⟨_, _, hpos, hle⟩ := mem_fills hinv.sound hcmd h hf
    have hopen := Order.openQuantity_giveFill hle
    refine ⟨f.1, (mem_restingAt hinv).mpr ⟨hcontains.1, hold, hside, hprice⟩, rfl, by omega,
      fun g hg hgid => ?_⟩
    omega

/-- A fill takes from the depth of the other side, and nothing adds to it. -/
theorem executed_total_lt (hinv : s.Invariant ids) (hcmd : Admissible ids cmd)
    (h : s.incomingOrder cmd = some order) (clock : Clock) {f : Order P × ℕ}
    (hf : f ∈ s.fills order) :
    Allocation.total Order.openQuantity
        ((s.executed clock order cmd).restingAt order.side.opposite f.1.price) <
      Allocation.total Order.openQuantity (s.restingAt order.side.opposite f.1.price) := by
  have hinv' : (s.executed clock order cmd).Invariant (ids ++ cmd.newIds) :=
    (hinv.prepared hcmd h clock).afterAll
  have hresting : f.1 ∈ s.restingAt order.side.opposite f.1.price :=
    mem_restingAt_of_mem_crossing hinv (Allocation.mem_queue_of_mem_fills hf)
  have hopenOf {t : Partition P} {ids' : List OrderID} (ht : t.Invariant ids') {o : Order P}
      (ho : o ∈ t.restingAt order.side.opposite f.1.price) :
      t.openOf o.coreOrderId = o.openQuantity := by
    rw [openOf, ((mem_restingAt ht).mp ho).2.1]
    rfl
  have hmem : f.1.coreOrderId ∈
      (s.restingAt order.side.opposite f.1.price).map Order.coreOrderId :=
    List.mem_map_of_mem hresting
  rw [total_restingAt hinv', total_restingAt hinv]
  refine Lists.sum_map_lt_of_subperm
    (List.subperm_of_subset (nodup_ids_restingAt hinv' _ _) fun id hid => ?_)
    (fun id hid => ?_) hmem ?_ fun hid => ?_
  · obtain ⟨resting, hmem, rfl⟩ := List.mem_map.mp hid
    obtain ⟨old, hold, heq, _⟩ := executed_resting_opposite hinv hcmd h clock hmem
    exact heq ▸ List.mem_map_of_mem hold
  · obtain ⟨resting, hmem, rfl⟩ := List.mem_map.mp hid
    obtain ⟨old, hold, heq, hle, _⟩ := executed_resting_opposite hinv hcmd h clock hmem
    rw [hopenOf hinv' hmem, ← heq, hopenOf hinv hold]
    exact hle
  · rw [hopenOf hinv hresting]
    exact openQuantity_of_mem_restingAt hinv hresting
  · obtain ⟨resting, hmem, hrid⟩ := List.mem_map.mp hid
    obtain ⟨old, hold, heq, _, hlt⟩ := executed_resting_opposite hinv hcmd h clock hmem
    rw [← hrid, hopenOf hinv' hmem, ← heq, hopenOf hinv hold]
    exact hlt f hf hrid.symm

/-! ## The refreshes of a command -/

/-- A rejected command is about no order that rests. -/
theorem not_contains_of_rejected (hinv : s.Invariant ids) (hcmd : Admissible ids cmd)
    (hincoming : s.incomingOrder cmd = none)
    (h : ∃ clientId symbol side reason, processCommand clock s cmd =
      some (s.publishRejection clock cmd.orderId clientId symbol side reason))
    (horder : s.orderManager.orderMap cmd.orderId = some order) :
    ¬s.orderBook.Contains cmd.orderId := by
  cases cmd with
  | newOrder c =>
      exact (hcmd.1 _ (List.mem_singleton.mpr rfl) (hinv.managed _ order horder).2.2).elim
  | cancelOrder c =>
      intro hid
      obtain ⟨_, _, _, _, h⟩ := h
      have hderef : (s.cancelled clock c.orderId).orderManager.deref c.orderId = some order :=
        horder
      have hget : s.orderManager.orderMap c.orderId = some order := horder
      have hcontains : s.orderBook.Contains c.orderId := hid
      simp only [processCommand, processCancelOrder, OrderManager.getOrderById, hget,
        cancelInBook_eq hinv.book.sound, Option.bind_eq_bind, Option.bind_some, hderef, hcontains,
        decide_true, if_true, pure, Option.some.injEq] at h
      have hmanager := congrArg (fun t : Partition P => t.orderManager.orderMap c.orderId) h
      simp [publishRejection, hget] at hmanager
  | modifyOrder c =>
      rw [incomingOrder, OrderManager.getOrderById] at hincoming
      have hget : s.orderManager.orderMap c.orderId = some order := horder
      simp [hget] at hincoming

omit [FinitePrice P] in
theorem bookingEvents_refreshes (cmd : Command P) (served : Order P)
    (fs : List (Order P × ℕ)) (trades : List (Trade P)) :
    (bookingEvents (postEvents cmd) served fs trades).flatMap Event.refreshes = [] := by
  have hpost : ∀ trade, (postEvents cmd trade).flatMap Event.refreshes = [] := by
    cases cmd <;> exact fun _ => rfl
  have hfill : ∀ f trade, (fillEvents served f trade).flatMap Event.refreshes = [] := by
    intro f trade
    simp [fillEvents, bookedEvents, Event.refreshes, List.flatMap_map]
  exact flatMap_bookingEvents_eq_nil trades hpost hfill

/-- Before the match only the removal of a replaced order is published. -/
theorem admissionEvents_refreshes (hinv : s.Invariant ids) (hcmd : Admissible ids cmd)
    (h : s.incomingOrder cmd = some order) (clock : Clock) :
    order.coreOrderId = cmd.orderId ∧
      (s.admissionEvents clock order cmd).flatMap Event.refreshes =
        (s.cancelEvents clock cmd.orderId).flatMap Event.refreshes := by
  rcases incomingOrder_cases hinv.sound hcmd h with
    ⟨c, rfl, rfl, _, hnone, _⟩ | ⟨c, old, rfl, _, hid, _⟩
  · refine ⟨rfl, ?_⟩
    have hevents : s.cancelEvents clock c.order.coreOrderId = [] := by
      rw [cancelEvents, hnone]
      split_ifs <;> rfl
    rw [Command.orderId, hevents]
    rfl
  · refine ⟨hid.symm, ?_⟩
    rw [Command.orderId, hid, admissionEvents, List.flatMap_append]
    exact List.append_nil _

/-- A command publishes the removal of the order it is about, if that rests, and
the insertion of what comes to rest. -/
theorem refreshes_step (hinv : s.Invariant ids) (hcmd : Admissible ids cmd)
    (h : processCommand clock s cmd = some s') :
    (s.incomingOrder cmd = none ∧
      (∀ order, s.orderManager.orderMap cmd.orderId = some order →
        ¬s.orderBook.Contains cmd.orderId) ∧
      s'.refreshes = s.refreshes ∧ s'.orderBook = s.orderBook ∧
      s'.orderManager = s.orderManager) ∨
    (∃ order, s.incomingOrder cmd = none ∧ s.orderManager.orderMap cmd.orderId = some order ∧
      s.orderBook.Contains cmd.orderId ∧
      s'.refreshes = s.refreshes ++
        (s.cancelEvents clock cmd.orderId).flatMap Event.refreshes ∧
      s'.orderBook = s.orderBook.without cmd.orderId ∧
      s'.orderManager = s.orderManager.removeOrderById cmd.orderId) ∨
    ∃ order, s.incomingOrder cmd = some order ∧ order.coreOrderId = cmd.orderId ∧
      s' = s.executed clock order cmd ∧ ∃ book, s'.refreshes = s.refreshes ++
        ((s.cancelEvents clock cmd.orderId).flatMap Event.refreshes ++
          if s.Remains order then
            [OrderBook.refresh book .new (s.served order) (s.served order).timestamp]
          else []) := by
  rcases processCommand_cases hinv.sound hcmd clock with
    ⟨hincoming, _, _, _, _, heq⟩ | ⟨c, order, rfl, horder, hcontains, heq⟩ | ⟨order, hincoming, heq⟩
  · obtain rfl := Option.some.inj (heq.symm.trans h)
    refine Or.inl ⟨hincoming, fun order horder => ?_, ?_, rfl, rfl⟩
    · exact not_contains_of_rejected hinv hcmd hincoming ⟨_, _, _, _, heq⟩ horder
    · exact List.flatMap_append.trans (List.append_nil _)
  · obtain rfl := Option.some.inj (heq.symm.trans h)
    refine Or.inr (Or.inl ⟨order, rfl, horder, hcontains, ?_, rfl, rfl⟩)
    rw [refreshes, cancelled_journal, List.flatMap_append, List.flatMap_append]
    exact congrArg _ (List.append_nil _)
  · obtain rfl := Option.some.inj (heq.symm.trans h)
    obtain ⟨hid, hadmission⟩ := admissionEvents_refreshes hinv hcmd hincoming clock
    refine Or.inr (Or.inr ⟨order, hincoming, hid, rfl,
      (s.prepared clock order cmd).orderBook.afterMatch
        (s.prepared clock order cmd).orderManager order, ?_⟩)
    have hclosing : ((s.prepared clock order cmd).closingEvents order).flatMap Event.refreshes =
        if s.Remains order then
          [((s.prepared clock order cmd).orderBook.afterMatch
            (s.prepared clock order cmd).orderManager order).refresh .new (s.served order)
              (s.served order).timestamp]
        else [] := by
      rw [closingEvents, prepared_served hinv.sound hcmd hincoming]
      simp only [prepared_remains hinv.sound hcmd hincoming]
      split_ifs <;> rfl
    simp only [refreshes, executed_journal, List.flatMap_append, List.flatMap_cons, hadmission,
      bookingEvents_refreshes, hclosing, List.nil_append]
    rfl

/-! ## The client after a command -/

/-- The command leaves the client's depth right: an order that leaves its price
leaves nobody behind, nothing is traded, and an order that comes to rest finds
nobody at its price. -/
structure KeepsDepth (s : Partition P) (cmd : Command P) : Prop where
  leaves : ∀ order, s.orderManager.orderMap cmd.orderId = some order →
    s.orderBook.Contains cmd.orderId → s.othersAt cmd.orderId order.side order.price = []
  trades : ∀ order, s.incomingOrder cmd = some order →
    order.openQuantity = 0 ∨ s.crossing order = []
  enters : ∀ order, s.incomingOrder cmd = some order → order.orderType = .limit →
    0 < order.openQuantity → s.othersAt cmd.orderId order.side order.price = []

variable {client : Client.OrderBook P}

omit [FinitePrice P] in
theorem cancelEvents_refreshes (clock : Clock) {id : OrderID} {old : Order P}
    (hold : s.orderManager.orderMap id = some old) (hcontains : s.orderBook.Contains id) :
    (s.cancelEvents clock id).flatMap Event.refreshes =
      [s.orderBook.refresh .delete old (clock s.ticks)] := by
  rw [cancelEvents, if_pos hcontains, hold]
  rfl

omit [FinitePrice P] in
theorem cancelEvents_refreshes_of_not (clock : Clock) {id : OrderID}
    (h : ∀ order, s.orderManager.orderMap id = some order → ¬s.orderBook.Contains id) :
    (s.cancelEvents clock id).flatMap Event.refreshes = [] := by
  rw [cancelEvents]
  split_ifs with hcontains
  · cases horder : s.orderManager.orderMap id with
    | none => rfl
    | some order => exact (h order horder hcontains).elim
  · rfl

/-- What the client knows of a price after the removal, if there is one: the
depth of the others, or nothing at the price of the order that leaves. -/
theorem sideMap_after_removal (hinv : s.Invariant ids) (hrep : s.Replicated client)
    (clock : Clock) (id : OrderID) (side : OrderSide) (price : P) :
    ((client.handleAll ((s.cancelEvents clock id).flatMap Event.refreshes)).sideMap
        side price).map UInt64.toNat = depthOf (s.othersAt id side price) ∨
    ∃ old, s.orderManager.orderMap id = some old ∧ s.orderBook.Contains id ∧
      side = old.side ∧ price = old.price ∧
      (client.handleAll ((s.cancelEvents clock id).flatMap Event.refreshes)).sideMap
        side price = none := by
  by_cases hleaves : ∃ old, s.orderManager.orderMap id = some old ∧ s.orderBook.Contains id
  · obtain ⟨old, hold, hcontains⟩ := hleaves
    have hclient := Client.OrderBook.sideMap_handle_delete client s.orderBook old
      (clock s.ticks) side price
    rw [cancelEvents_refreshes clock hold hcontains]
    by_cases hplace : side = old.side ∧ price = old.price
    · rw [if_pos hplace] at hclient
      exact Or.inr ⟨old, hold, hcontains, hplace.1, hplace.2, hclient⟩
    · rw [if_neg hplace] at hclient
      refine Or.inl ?_
      rw [othersAt_eq_restingAt hinv fun order horder _ => by
        rwa [Option.some.inj (horder.symm.trans hold)]]
      exact (congrArg _ hclient).trans (hrep side price)
  · have hnot : ∀ order, s.orderManager.orderMap id = some order → ¬s.orderBook.Contains id :=
      fun order horder hcontains => hleaves ⟨order, horder, hcontains⟩
    refine Or.inl ?_
    rw [cancelEvents_refreshes_of_not clock hnot,
      othersAt_eq_restingAt hinv fun order horder hcontains => (hnot order horder hcontains).elim]
    exact hrep side price

/-- After a removal the client has the depth of the others exactly when there
are none at the price that is erased. -/
theorem removal_replicated_iff (hinv : s.Invariant ids) (hrep : s.Replicated client)
    (clock : Clock) (id : OrderID) :
    (∀ side price, ((client.handleAll ((s.cancelEvents clock id).flatMap
        Event.refreshes)).sideMap side price).map UInt64.toNat =
          depthOf (s.othersAt id side price)) ↔
      ∀ old, s.orderManager.orderMap id = some old → s.orderBook.Contains id →
        s.othersAt id old.side old.price = [] := by
  constructor
  · intro h old hold hcontains
    have hclient := Client.OrderBook.sideMap_handle_delete client s.orderBook old
      (clock s.ticks) old.side old.price
    rw [if_pos ⟨rfl, rfl⟩] at hclient
    have hplace := h old.side old.price
    rw [cancelEvents_refreshes clock hold hcontains] at hplace
    exact depthOf_eq_none_iff.mp (hplace.symm.trans (congrArg _ hclient))
  · intro h side price
    rcases sideMap_after_removal hinv hrep clock id side price with
      hsame | ⟨old, hold, hcontains, rfl, rfl, hnone⟩
    · exact hsame
    · rw [hnone, depthOf_eq_none_iff.mpr (h old hold hcontains)]
      rfl

theorem othersAt_openQuantity_pos (hinv : s.Invariant ids) {id : OrderID} :
    ∀ resting ∈ s.othersAt id side price, 0 < resting.openQuantity := fun _ hresting =>
  openQuantity_of_mem_restingAt hinv (mem_othersAt.mp hresting).1

omit [FinitePrice P] in
/-- The quantity of one order is the depth only if there is no other open order. -/
theorem eq_nil_of_depthOf_cons {orders : List (Order P)}
    (hpos : ∀ resting ∈ orders, 0 < resting.openQuantity)
    (h : (some order.remainingQuantity).map UInt64.toNat = depthOf ([order] ++ orders)) :
    orders = [] := by
  by_contra hne
  have htotal := Allocation.total_pos hpos hne
  simp only [depthOf, List.cons_append, List.nil_append, reduceCtorEq, if_false, Option.map_some,
    Option.some.injEq, Allocation.total_cons, Order.openQuantity] at h
  omega

/-- A replaced order stays on its side. -/
theorem side_of_replaced (hinv : s.Invariant ids) (hcmd : Admissible ids cmd)
    (h : s.incomingOrder cmd = some order) {old : Order P}
    (hold : s.orderManager.orderMap cmd.orderId = some old) : old.side = order.side := by
  rcases incomingOrder_cases hinv.sound hcmd h with
    ⟨c, rfl, rfl, _, hnone, _⟩ | ⟨c, old', rfl, rfl, hid, hold', _⟩
  · have hfree : s.orderManager.orderMap c.order.coreOrderId = some old := hold
    simp [hnone] at hfree
  · rw [Command.orderId, hid, hold'] at hold
    obtain rfl := Option.some.inj hold
    rfl

/-- The client's other side is not touched by what an executed command publishes. -/
theorem sideMap_opposite_after_removal (hinv : s.Invariant ids) (hcmd : Admissible ids cmd)
    (hrep : s.Replicated client) (h : s.incomingOrder cmd = some order) (clock : Clock)
    (price : P) :
    ((client.handleAll ((s.cancelEvents clock cmd.orderId).flatMap Event.refreshes)).sideMap
        order.side.opposite price).map UInt64.toNat = s.depth order.side.opposite price := by
  have hside {old : Order P} (hold : s.orderManager.orderMap cmd.orderId = some old) :
      order.side.opposite ≠ old.side := by
    rw [side_of_replaced hinv hcmd h hold]
    exact OrderSide.opposite_ne order.side
  rcases sideMap_after_removal hinv hrep clock cmd.orderId order.side.opposite price with
    hsame | ⟨old, hold, _, heq, _⟩
  · rwa [othersAt_eq_restingAt hinv fun _ horder _ hplace => hside horder hplace.1] at hsame
  · exact (hside hold heq).elim

/-- Fills are not published, so the client misses them. -/
theorem fills_eq_nil_of_replicated (hinv : s.Invariant ids) (hcmd : Admissible ids cmd)
    (h : s.incomingOrder cmd = some order) {client' : Client.OrderBook P}
    (hclient : ∀ price, (client'.sideMap order.side.opposite price).map UInt64.toNat =
      s.depth order.side.opposite price)
    (hrep : (s.executed clock order cmd).Replicated client') : s.fills order = [] := by
  by_contra hne
  obtain ⟨f, hf⟩ := List.exists_mem_of_ne_nil _ hne
  have hlt := executed_total_lt hinv hcmd h clock hf
  have hresting : f.1 ∈ s.restingAt order.side.opposite f.1.price :=
    mem_restingAt_of_mem_crossing hinv (Allocation.mem_queue_of_mem_fills hf)
  have heq := (hclient f.1.price).symm.trans (hrep order.side.opposite f.1.price)
  rw [depth, depth, depthOf, depthOf, if_neg (List.ne_nil_of_mem hresting)] at heq
  split_ifs at heq
  exact hlt.ne (Option.some.inj heq).symm

/-- The refresh of the insertion puts the order alone at its price. -/
theorem sideMap_after_insertion (client : Client.OrderBook P) (s : Partition P) (order : Order P)
    (book : OrderBook P) (side : OrderSide) (price : P) :
    (client.handleAll (if s.Remains order then
        [OrderBook.refresh book .new (s.served order) (s.served order).timestamp]
      else [])).sideMap side price =
      if s.Remains order ∧ side = order.side ∧ price = order.price then
        some (s.served order).remainingQuantity
      else client.sideMap side price := by
  obtain ⟨qty, status, hserved⟩ := s.served_set order
  by_cases hremains : s.Remains order
  · have hopen : (s.served order).remainingQuantity ≠ 0 := by
      rw [ne_eq, Order.remainingQuantity_eq_zero_iff]
      exact hremains.1.ne'
    have hnew := Client.OrderBook.sideMap_handle_new client book hopen
      (s.served order).timestamp side price
    have hplace : (s.served order).side = order.side ∧ (s.served order).price = order.price := by
      rw [hserved]
      exact ⟨rfl, rfl⟩
    rw [hplace.1, hplace.2] at hnew
    simp only [hremains, if_true, true_and]
    exact hnew
  · simp only [hremains, if_false, false_and]
    rfl

theorem remains_iff_of_fills_nil (hnil : s.fills order = []) : s.Remains order ↔
    order.orderType = .limit ∧ 0 < order.openQuantity := by
  rw [Remains, served_of_fills_nil hnil, and_comm]

/-- Without a trade the depth after the command is that of the others, with the order on
top where it joins them. -/
theorem depth_executed_of_fills_nil (hinv : s.Invariant ids) (hcmd : Admissible ids cmd)
    (h : s.incomingOrder cmd = some order) (hid : order.coreOrderId = cmd.orderId) (clock : Clock)
    (hnil : s.fills order = []) (side : OrderSide) (price : P) :
    (s.executed clock order cmd).depth side price = depthOf
      ((if s.Remains order ∧ side = order.side ∧ price = order.price then [s.served order]
        else []) ++ s.othersAt cmd.orderId side price) := by
  rw [depth, ← hid]
  exact depthOf_perm (executed_restingAt hinv hcmd h clock hnil)

theorem executed_replicated_iff (hinv : s.Invariant ids) (hcmd : Admissible ids cmd)
    (h : s.incomingOrder cmd = some order) (hid : order.coreOrderId = cmd.orderId)
    (hrep : s.Replicated client) (clock : Clock) (book : OrderBook P) :
    (s.executed clock order cmd).Replicated (client.handleAll
        ((s.cancelEvents clock cmd.orderId).flatMap Event.refreshes ++
          if s.Remains order then
            [OrderBook.refresh book .new (s.served order) (s.served order).timestamp]
          else [])) ↔ s.KeepsDepth cmd := by
  have hremoval := removal_replicated_iff hinv hrep clock cmd.orderId
  have hopposite := sideMap_opposite_after_removal hinv hcmd hrep h clock
  have hafter := depth_executed_of_fills_nil hinv hcmd h hid clock
  have hplaces := sideMap_after_removal hinv hrep clock cmd.orderId order.side order.price
  rw [Client.OrderBook.handleAll, List.foldl_append]
  change (s.executed clock order cmd).Replicated
    (Client.OrderBook.handleAll (client.handleAll _) _) ↔ _
  generalize client.handleAll ((s.cancelEvents clock cmd.orderId).flatMap Event.refreshes) =
    removed at hremoval hopposite hplaces ⊢
  have hsideMap := sideMap_after_insertion removed s order book
  constructor
  · intro hreplicated
    have hnil : s.fills order = [] := by
      refine fills_eq_nil_of_replicated hinv hcmd h (fun price => ?_) hreplicated
      have hother : ¬(s.Remains order ∧ order.side.opposite = order.side ∧
          price = order.price) := fun hplace => OrderSide.opposite_ne _ hplace.2.1
      rw [hsideMap, if_neg hother]
      exact hopposite price
    have halone (hremains : s.Remains order) :
        s.othersAt cmd.orderId order.side order.price = [] := by
      have hplace := hreplicated order.side order.price
      rw [hsideMap, hafter hnil, if_pos ⟨hremains, rfl, rfl⟩, if_pos ⟨hremains, rfl, rfl⟩] at hplace
      exact eq_nil_of_depthOf_cons (othersAt_openQuantity_pos hinv) hplace
    refine ⟨hremoval.mp fun side price => ?_, fun order' horder' => ?_, fun order' horder' => ?_⟩
    · by_cases hjoins : s.Remains order ∧ side = order.side ∧ price = order.price
      · obtain ⟨hjoins, rfl, rfl⟩ := hjoins
        rcases hplaces with hsame | ⟨_, _, _, _, _, hnone⟩
        · exact hsame
        · rw [hnone, halone hjoins]
          rfl
      · have hplace := hreplicated side price
        rwa [hsideMap, hafter hnil, if_neg hjoins, if_neg hjoins] at hplace
    · obtain rfl := Option.some.inj (h.symm.trans horder')
      exact Allocation.fills_eq_nil_iff.mp hnil
    · obtain rfl := Option.some.inj (h.symm.trans horder')
      exact fun hlimit hopen => halone ((remains_iff_of_fills_nil hnil).mpr ⟨hlimit, hopen⟩)
  · intro hkeeps side price
    have hnil : s.fills order = [] := Allocation.fills_eq_nil_iff.mpr (hkeeps.trades order h)
    rw [hsideMap, hafter hnil]
    split_ifs with hjoins
    · obtain ⟨hjoins, rfl, rfl⟩ := hjoins
      obtain ⟨hlimit, hopen⟩ := (remains_iff_of_fills_nil hnil).mp hjoins
      rw [hkeeps.enters order h hlimit hopen]
      simp [depthOf, Order.openQuantity]
    · exact hremoval.mpr hkeeps.leaves side price

/-- A command keeps the client's depth exactly when it meets the condition. -/
theorem replicated_step (hinv : s.Invariant ids) (hcmd : Admissible ids cmd)
    (h : processCommand clock s cmd = some s') :
    ∃ new, s'.refreshes = s.refreshes ++ new ∧ ∀ client, s.Replicated client →
      (s'.Replicated (client.handleAll new) ↔ s.KeepsDepth cmd) := by
  obtain ⟨t, ht, hinv'⟩ := processCommand_invariant hinv hcmd clock
  obtain rfl := Option.some.inj (ht.symm.trans h)
  rcases refreshes_step hinv hcmd h with
    ⟨hincoming, hnot, hrefreshes, hbook, hmanager⟩ |
      ⟨order, hincoming, horder, hcontains, hrefreshes, hbook, hmanager⟩ |
      ⟨order, hincoming, hid, rfl, book, hrefreshes⟩
  · refine ⟨[], by rw [hrefreshes, List.append_nil], fun client hrep =>
      iff_of_true ?_ ⟨?_, ?_, ?_⟩⟩
    · intro side price
      rw [depth, restingAt, hbook, hmanager]
      exact hrep side price
    · exact fun order horder hcontains => (hnot order horder hcontains).elim
    · simp [hincoming]
    · simp [hincoming]
  · refine ⟨_, hrefreshes, fun client hrep => ?_⟩
    have hdepth (side : OrderSide) (price : P) :
        t.depth side price = depthOf (s.othersAt cmd.orderId side price) :=
      depthOf_perm (cancelled_restingAt hinv hinv' hbook hmanager)
    simp only [Replicated, hdepth]
    rw [removal_replicated_iff hinv hrep]
    exact ⟨fun hleaves => ⟨hleaves, by simp [hincoming], by simp [hincoming]⟩, KeepsDepth.leaves⟩
  · exact ⟨_, hrefreshes, fun client hrep =>
      executed_replicated_iff hinv hcmd hincoming hid hrep clock book⟩

end Resting

/-! ## The snapshot -/

section Snapshot

variable [FinitePrice P] {ids : List OrderID} {s : Partition P}

/-- All totals of the book fit in the quantity of an entry. -/
def TotalsFit (s : Partition P) : Prop :=
  ∀ side price, Allocation.total Order.openQuantity (s.restingAt side price) < 2 ^ 64

omit [FinitePrice P] in
/-- The total of a level whose pointers are all good, modulo the width of a
quantity. -/
theorem totalQuantity_eq_of_managed {manager : OrderManager P} {level : PriceLevel}
    (h : ∀ ptr ∈ level, ∃ order, manager.orderMap ptr = some order) :
    OrderBook.totalQuantity manager level = some (UInt64.ofNat
      (Allocation.total Order.openQuantity (restingOrders manager level))) := by
  induction level with
  | nil => rfl
  | cons ptr level ih =>
      obtain ⟨order, horder⟩ := h ptr List.mem_cons_self
      have ih := ih fun p hp => h p (List.mem_cons_of_mem ptr hp)
      rw [restingOrders_cons horder, Allocation.total_cons, UInt64.ofNat_add]
      simp [OrderBook.totalQuantity, OrderManager.deref, horder, ih, Order.openQuantity]

omit [FinitePrice P] in
theorem totalQuantity_eq {manager : OrderManager P} {level : PriceLevel}
    (h : Live manager level) :
    OrderBook.totalQuantity manager level = some (UInt64.ofNat
      (Allocation.total Order.openQuantity (restingOrders manager level))) := by
  refine totalQuantity_eq_of_managed fun ptr hptr => ?_
  obtain ⟨order, horder, _⟩ := h ptr hptr
  exact ⟨order, horder⟩

/-- The resting orders of a level have its price. -/
theorem price_of_mem_restingOrders {manager : OrderManager P} {side : OrderSide}
    {map : PriceMap P} (h : SideInvariant manager side map) {order : Order P}
    (horder : order ∈ restingOrders manager (Levels.queue map)) :
    ∃ l ∈ map, l.1 = order.price := by
  obtain ⟨ptr, hptr, hget⟩ := List.mem_filterMap.mp horder
  obtain ⟨l, hl, hmem⟩ := Levels.mem_queue.mp hptr
  obtain ⟨order', horder', _, _, hprice, _⟩ := h.rests l hl ptr hmem
  exact ⟨l, hl, by rw [Option.some.inj (hget.symm.trans horder'), hprice]⟩

/-- The first level of a side has the orders at its price, and no others. -/
theorem filter_restingOrders_cons {manager : OrderManager P} {side : OrderSide} {price' : P}
    {level : PriceLevel} {map : PriceMap P} (h : SideInvariant manager side ((price', level) :: map))
    (price : P) :
    (restingOrders manager (Levels.queue ((price', level) :: map))).filter
        (fun order => order.price = price) =
      if price = price' then restingOrders manager level
      else (restingOrders manager (Levels.queue map)).filter fun order => order.price = price := by
  have hfirst : ∀ order ∈ restingOrders manager level, order.price = price' := by
    intro order horder
    obtain ⟨ptr, hptr, hget⟩ := List.mem_filterMap.mp horder
    obtain ⟨order', horder', _, _, hprice, _⟩ := (Levels.all_cons.mp h.rests).1 ptr hptr
    rw [Option.some.inj (hget.symm.trans horder'), hprice]
  have hlater : ∀ order ∈ restingOrders manager (Levels.queue map), order.price ≠ price' := by
    rintro order horder rfl
    obtain ⟨l, hl, hprice⟩ := price_of_mem_restingOrders h.tail horder
    exact irrefl_of side.before order.price (hprice ▸ (List.pairwise_cons.mp h.sorted).1 l hl)
  rw [Levels.queue_cons, restingOrders_append, List.filter_append]
  split_ifs with hkey
  · subst hkey
    have hall := List.filter_eq_self.mpr fun order horder => decide_eq_true (hfirst order horder)
    have hnone := List.filter_eq_nil_iff.mpr fun order horder =>
      mt of_decide_eq_true (hlater order horder)
    rw [hall, hnone, List.append_nil]
  · have hnone : (restingOrders manager level).filter (fun order => order.price = price) = [] := by
      refine List.filter_eq_nil_iff.mpr fun order horder heq => hkey ?_
      rw [← hfirst order horder, of_decide_eq_true heq]
    rw [hnone, List.nil_append]

/-- The entries of a side set every price to the total of its level, modulo the
width of a quantity. -/
theorem sideMap_foldl_setLevel {manager : OrderManager P} {side : OrderSide} {map : PriceMap P}
    (h : SideInvariant manager side map) (position : UInt32) :
    ∃ entries, OrderBook.snapshotEntries manager side.entryType position map = some entries ∧
      ∀ client side' price,
        (entries.foldl Client.OrderBook.setLevel client).sideMap side' price =
          if side' = side ∧ ∃ l ∈ map, l.1 = price then
            some (UInt64.ofNat (Allocation.total Order.openQuantity
              ((restingOrders manager (Levels.queue map)).filter
                fun order => order.price = price)))
          else client.sideMap side' price := by
  induction map generalizing position with
  | nil => exact ⟨[], rfl, by simp⟩
  | cons l map ih =>
      obtain ⟨entries, hentries, hfold⟩ := ih h.tail (position + 1)
      obtain ⟨price', level⟩ := l
      have hlive : Live manager level := h.sound.live.mono fun ptr hptr => by simp [hptr]
      have hlater : ∀ l ∈ map, l.1 ≠ price' := fun l hl heq =>
        irrefl_of side.before price' (heq ▸ (List.pairwise_cons.mp h.sorted).1 l hl)
      obtain ⟨front, orders, rfl⟩ :=
        List.exists_cons_of_ne_nil (Levels.noEmpty_cons.mp h.noEmpty).1
      obtain ⟨first, hfirst, _⟩ := hlive front List.mem_cons_self
      refine ⟨_, by
        simp only [OrderBook.snapshotEntries, totalQuantity_eq hlive, OrderManager.deref, hfirst,
          hentries, Option.bind_eq_bind, Option.bind_some]
        rfl, fun client side' price => ?_⟩
      rw [List.foldl_cons, hfold, filter_restingOrders_cons h,
        Client.OrderBook.sideMap_setLevel rfl]
      by_cases hkey : price = price'
      · subst hkey
        have hnone : ¬(side' = side ∧ ∃ l ∈ map, l.1 = price) := by
          rintro ⟨_, l, hl, heq⟩
          exact hlater l hl heq
        rw [if_neg hnone, if_pos rfl]
        simp
      · have hsame : (∃ l ∈ (price', front :: orders) :: map, l.1 = price) ↔
            ∃ l ∈ map, l.1 = price := by
          rw [List.exists_mem_cons_iff]
          exact or_iff_right (Ne.symm hkey)
        simp only [hkey, and_false, if_false, hsame]

/-- The snapshot is defined, and gives the client the total of every price
modulo the width of a quantity. -/
theorem sideMap_snapshot (hinv : s.Invariant ids) (sessionId : SessionID)
    (client : Client.OrderBook P) :
    ∃ snapshot, s.orderBook.publishSnapshot s.orderManager sessionId = some snapshot ∧
      ∀ side price, (client.handleSnapshot snapshot).sideMap side price =
        (s.depth side price).map UInt64.ofNat := by
  obtain ⟨bids, hbids, hbid⟩ := sideMap_foldl_setLevel (hinv.book .buy) 1
  obtain ⟨asks, hasks, hask⟩ := sideMap_foldl_setLevel (hinv.book .sell) 1
  have hpresent (side : OrderSide) (price : P) :
      (∃ l ∈ s.orderBook.sideMap side, l.1 = price) ↔ s.restingAt side price ≠ [] := by
    constructor
    · rintro ⟨l, hl, rfl⟩
      obtain ⟨ptr, hptr⟩ := List.exists_mem_of_ne_nil _ ((hinv.book side).noEmpty l hl)
      obtain ⟨order, horder, hid, _, hprice, _⟩ := (hinv.book side).rests l hl ptr hptr
      have hqueue : ptr ∈ Levels.queue (s.orderBook.sideMap side) :=
        Levels.mem_queue.mpr ⟨l, hl, hptr⟩
      exact List.ne_nil_of_mem (List.mem_filter.mpr
        ⟨List.mem_filterMap.mpr ⟨ptr, hqueue, horder⟩, decide_eq_true hprice⟩)
    · intro hne
      obtain ⟨order, horder⟩ := List.exists_mem_of_ne_nil _ hne
      obtain ⟨hmem, hprice⟩ := List.mem_filter.mp horder
      obtain ⟨l, hl, hlprice⟩ := price_of_mem_restingOrders (hinv.book side) hmem
      exact ⟨l, hl, hlprice.trans (of_decide_eq_true hprice)⟩
  refine ⟨_, by
    simp only [OrderBook.publishSnapshot]
    rw [show OrderBook.snapshotEntries _ .bid 1 s.orderBook.bidMap = some bids from hbids,
      show OrderBook.snapshotEntries _ .offer 1 s.orderBook.askMap = some asks from hasks]
    rfl, fun side price => ?_⟩
  have hcleared : (⟨fun _ => none, fun _ => none⟩ : Client.OrderBook P).sideMap side price =
      none := by
    cases side <;> rfl
  have htotal (side : OrderSide) : (s.depth side price).map UInt64.ofNat =
      if s.restingAt side price ≠ [] then
        some (UInt64.ofNat (Allocation.total Order.openQuantity (s.restingAt side price)))
      else none := by
    rw [depth, depthOf]
    split_ifs <;> simp_all
  rw [htotal]
  simp only [Client.OrderBook.handleSnapshot, List.foldl_append, hask, hbid, hpresent, hcleared]
  cases side with
  | buy => simp [restingAt]
  | sell => simp [restingAt]

/-- The client starts with the depth of the book if the totals fit. -/
theorem snapshot_replicated_iff (hinv : s.Invariant ids) (sessionId : SessionID)
    (client : Client.OrderBook P) :
    ∃ snapshot, s.orderBook.publishSnapshot s.orderManager sessionId = some snapshot ∧
      (s.Replicated (client.handleSnapshot snapshot) ↔ s.TotalsFit) := by
  obtain ⟨snapshot, hsnapshot, hclient⟩ := sideMap_snapshot hinv sessionId client
  refine ⟨snapshot, hsnapshot, forall₂_congr fun side price => ?_⟩
  rw [hclient, depth, depthOf]
  split_ifs with hnil
  · simp [hnil]
  · rw [Option.map_some, Option.map_some, Option.some.injEq, UInt64.toNat_ofNat']
    exact ⟨fun heq => heq ▸ Nat.mod_lt _ (by decide), Nat.mod_eq_of_lt⟩

end Snapshot

/-! ## Runs -/

/-- The client's book in the partition `t`, if it has applied the snapshot taken
in the partition `s` and all refreshes since. -/
def clientBook [DecidableEq P] (client : Client.OrderBook P)
    (snapshot : MarketDataSnapshotFullRefresh P) (s t : Partition P) : Client.OrderBook P :=
  (client.handleSnapshot snapshot).handleAll (t.refreshes.drop s.refreshes.length)

namespace Sample

/-- A client that has not seen anything yet. -/
def freshClient : Client.OrderBook ℚ := ⟨fun _ => none, fun _ => none⟩

/-- A second order at the price of the first, which then leaves. -/
def sharedPrice : List (Command ℚ) :=
  [submit 2 "S2" .sell .limit 4 10, cancel 1]

end Sample

end Partition

end BetaTrader
