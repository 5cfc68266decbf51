import BetaTrader.Exchange.Registration
import BetaTrader.Exchange.Restart

/-!
# Stopping and starting a partition

`Partition::start` fills the book from the order manager, and `Partition::stop`
takes the worker away and leaves both as they are.  The book that a start finds is
thus either the empty one of the constructor, or the one that the last worker has
left, into which every order is inserted once more.
-/

namespace BetaTrader

open Matcher

variable {P : Type}

/-- A partition with its worker. -/
structure PartitionProcess (P : Type) where
  partition : Partition P
  /-- Is there an `mWorker`? -/
  worker : Bool
  /-- The book as the last `stop` has left it, until a command is processed. -/
  stoppedBook : Option (OrderBook P)

inductive PartitionEvent (P : Type) where
  /-- `start`, with the ids as the `unordered_map` is iterated. -/
  | start (iteration : List OrderID)
  | stop
  /-- The worker processes a command. -/
  | process (cmd : Command P)

def PartitionEvent.newIds : PartitionEvent P → List OrderID
  | .process cmd => cmd.newIds
  | _ => []

namespace OrderBook

/-- All pointers of the book. -/
def pointers (book : OrderBook P) : List OrderPtr :=
  Levels.queue book.bidMap ++ Levels.queue book.askMap

theorem mem_pointers {book : OrderBook P} {id : OrderID} :
    id ∈ book.pointers ↔ book.Contains id := List.mem_append

theorem pointers_push_perm [LT P] [DecidableLT P] (book : OrderBook P) (order : Order P) :
    (book.push order).pointers.Perm (order.coreOrderId :: book.pointers) := by
  cases hside : order.side with
  | buy =>
      have hpush : (book.push order).pointers = Levels.queue (Levels.pushBack OrderSide.buy.before
          order.price order.coreOrderId book.bidMap) ++ Levels.queue book.askMap := by
        rw [push, hside]
        rfl
      rw [hpush]
      exact (Levels.queue_pushBack_perm _ _ _ _).append_right _
  | sell =>
      have hpush : (book.push order).pointers = Levels.queue book.bidMap ++ Levels.queue
          (Levels.pushBack OrderSide.sell.before order.price order.coreOrderId book.askMap) := by
        rw [push, hside]
        rfl
      rw [hpush]
      exact ((Levels.queue_pushBack_perm _ _ _ _).append_left _).trans List.perm_middle

theorem pointers_foldl_push_perm [LT P] [DecidableLT P] (book : OrderBook P)
    (orders : List (Order P)) : (orders.foldl push book).pointers.Perm
      (orders.map Order.coreOrderId ++ book.pointers) := by
  induction orders generalizing book with
  | nil => exact List.Perm.refl _
  | cons order orders ih =>
      have hpush := (pointers_push_perm book order).append_left (orders.map Order.coreOrderId)
      exact (ih (book.push order)).trans (hpush.trans List.perm_middle)

end OrderBook

namespace Partition

/-- Every registered order is in the book exactly once, at its own price, and no
level holds an order twice. -/
structure BookedOnce [DecidableEq P] (s : Partition P) : Prop where
  once : ∀ id order, s.orderManager.orderMap id = some order → s.orderBook.pointers.count id = 1
  place : ∀ id order, s.orderManager.orderMap id = some order →
    id ∈ Levels.level order.price (s.orderBook.sideMap order.side)
  noTwice : ∀ side, ∀ l ∈ s.orderBook.sideMap side, l.2.Nodup

/-- The ids of the registered orders, in some order. -/
def Enumerates (s : Partition P) (iteration : List OrderID) : Prop :=
  iteration.Nodup ∧ ∀ id, id ∈ iteration ↔ (s.orderManager.orderMap id).isSome

section Books

variable [FinitePrice P] {s : Partition P} {iteration : List OrderID}

theorem nodup_pointers (hbook : BookInvariant s.orderManager s.orderBook) :
    s.orderBook.pointers.Nodup := by
  refine List.nodup_append.mpr ⟨(hbook .buy).nodup, (hbook .sell).nodup, ?_⟩
  rintro id hbuy _ hsell rfl
  obtain ⟨order, horder, _, hside, _⟩ := (hbook.sound .buy).rests id hbuy
  obtain ⟨order', horder', _, hside', _⟩ := (hbook.sound .sell).rests id hsell
  obtain rfl := Option.some.inj (horder.symm.trans horder')
  cases hside.symm.trans hside'

theorem bookedOnce_iff (hbook : BookInvariant s.orderManager s.orderBook) :
    s.BookedOnce ↔ ∀ id order, s.orderManager.orderMap id = some order →
      s.orderBook.Contains id := by
  constructor
  · intro h id order horder
    refine OrderBook.mem_pointers.mp (List.count_pos_iff.mp ?_)
    rw [h.once id order horder]
    exact Nat.one_pos
  · intro h
    refine ⟨fun id order horder => ?_, fun id order horder => ?_, fun side l hl => ?_⟩
    · exact List.count_eq_one_of_mem (nodup_pointers hbook)
        (OrderBook.mem_pointers.mpr (h id order horder))
    · obtain ⟨side, hmem⟩ := OrderBook.contains_iff.mp (h id order horder)
      obtain ⟨l, hl, hid⟩ := Levels.mem_queue.mp hmem
      obtain ⟨order', horder', _, rfl, hprice, _⟩ := (hbook side).rests l hl id hid
      obtain rfl := Option.some.inj (horder.symm.trans horder')
      exact Levels.mem_level.mpr ⟨l, hl, hprice.symm, hid⟩
    · exact (List.nodup_flatMap.mp (hbook side).nodup).1 l hl

/-- Orders that are in the book already are inserted once more. -/
theorem pointers_startWith_perm (haddressed : s.orderManager.Addressed)
    (hall : ∀ id ∈ iteration, (s.orderManager.orderMap id).isSome) :
    (s.startWith iteration).orderBook.pointers.Perm (iteration ++ s.orderBook.pointers) := by
  have hids : (restingOrders s.orderManager iteration).map Order.coreOrderId = iteration := by
    induction iteration with
    | nil => rfl
    | cons id iteration ih =>
        obtain ⟨order, horder⟩ := Option.isSome_iff_exists.mp (hall id List.mem_cons_self)
        rw [restingOrders_cons horder, List.map_cons, haddressed id order horder,
          ih fun id hid => hall id (List.mem_cons_of_mem _ hid)]
  rw [startWith_orderBook haddressed]
  conv_rhs => rw [← hids]
  exact OrderBook.pointers_foldl_push_perm _ _

/-- Orders that are not in the book yet are inserted at their own prices. -/
theorem startWith_bookInvariant (hbook : BookInvariant s.orderManager s.orderBook)
    (haddressed : s.orderManager.Addressed)
    (hopen : ∀ id order, s.orderManager.orderMap id = some order → 0 < order.openQuantity)
    (hnodup : iteration.Nodup) (hnot : ∀ id ∈ iteration, ¬s.orderBook.Contains id) :
    BookInvariant (s.startWith iteration).orderManager (s.startWith iteration).orderBook := by
  induction iteration generalizing s with
  | nil => exact hbook
  | cons id iteration ih =>
      obtain ⟨hid, hrest⟩ := List.nodup_cons.mp hnodup
      have hnotRest : ∀ other ∈ iteration, ¬s.orderBook.Contains other := fun other hother =>
        hnot other (List.mem_cons_of_mem _ hother)
      cases horder : s.orderManager.orderMap id with
      | none =>
          rw [startWith_cons_of_none horder]
          exact ih hbook haddressed hopen hrest hnotRest
      | some order =>
          obtain rfl := haddressed id order horder
          rw [startWith_cons horder]
          have hpush : BookInvariant (s.inserted order).orderManager
              (s.inserted order).orderBook :=
            hbook.push horder (hopen _ order horder) (hnot _ List.mem_cons_self)
          refine ih hpush haddressed hopen hrest fun other hother hmem => ?_
          rcases OrderBook.contains_push.mp hmem with rfl | hmem
          · exact hid hother
          · exact hnotRest other hother hmem

end Books

end Partition

namespace PartitionProcess

/-- The partition of the constructor, once its orders have been loaded. -/
def load (symbol : Instrument) (currentId : TradeID) (orders : List (Order P)) :
    PartitionProcess P where
  partition := (Partition.init symbol currentId).load orders
  worker := false
  stoppedBook := none

def step [PriceArith P] (clock : Clock) (s : PartitionProcess P) :
    PartitionEvent P → Option (PartitionProcess P)
  | .start iteration =>
      if s.worker then some s
      else some { s with partition := s.partition.startWith iteration, worker := true }
  | .stop =>
      if s.worker then
        some { s with worker := false, stoppedBook := some s.partition.orderBook }
      else some s
  | .process cmd => do
      let partition ← Partition.processCommand clock s.partition cmd
      return { s with partition := partition, stoppedBook := none }

/-- Commands are processed by a worker, their new orders have ids of their own, and an
iteration of the `unordered_map` meets every order once. -/
def Legal (orders : List (Order P)) (history : List (PartitionEvent P))
    (s : PartitionProcess P) : PartitionEvent P → Prop
  | .start iteration => s.partition.Enumerates iteration
  | .stop => True
  | .process cmd => s.worker = true ∧
      Admissible (orders.map Order.coreOrderId ++ history.flatMap PartitionEvent.newIds) cmd

/-- While there is a worker every order is booked once, and a stop with a start after
it has left the book as it was. -/
structure KeepsBook [DecidableEq P] (s : PartitionProcess P) : Prop where
  once : s.worker = true → s.partition.BookedOnce
  unchanged : s.worker = true → ∀ book ∈ s.stoppedBook, s.partition.orderBook = book

/-- A start inserts no order that is in the book already, and a command leaves no order
behind. -/
def Harmless [FinitePrice P] (s : PartitionProcess P) : PartitionEvent P → Prop
  | .start _ => s.worker = true ∨
      ∀ id, (s.partition.orderManager.orderMap id).isSome → ¬s.partition.orderBook.Contains id
  | .stop => True
  | .process cmd => s.partition.FillsOne cmd

/-! ## Steps -/

section Steps

variable [FinitePrice P] {orders : List (Order P)} {history : List (PartitionEvent P)}
  {s t : PartitionProcess P} {event : PartitionEvent P} {clock : Clock}

/-- What harmless events keep.  As long as no worker has run, the book is empty. -/
structure Consistent (orders : List (Order P)) (history : List (PartitionEvent P))
    (s : PartitionProcess P) : Prop where
  book : BookInvariant s.partition.orderManager s.partition.orderBook
  managed : ∀ id order, s.partition.orderManager.orderMap id = some order →
    order.coreOrderId = id ∧ order.orderType = .limit ∧
      id ∈ orders.map Order.coreOrderId ++ history.flatMap PartitionEvent.newIds
  opens : ∀ id order, s.partition.orderManager.orderMap id = some order → 0 < order.openQuantity
  resting : (∀ id order, s.partition.orderManager.orderMap id = some order →
      s.partition.orderBook.Contains id) ∨
    (s.worker = false ∧ s.stoppedBook = none ∧ ∀ id, ¬s.partition.orderBook.Contains id)
  unchanged : ∀ book ∈ s.stoppedBook, s.partition.orderBook = book

theorem Consistent.sound (h : Consistent orders history s) :
    s.partition.Sound (orders.map Order.coreOrderId ++
      history.flatMap PartitionEvent.newIds) :=
  ⟨h.book.sound, h.managed⟩

theorem Consistent.addressed (h : Consistent orders history s) :
    s.partition.orderManager.Addressed :=
  fun id order horder => (h.managed id order horder).1

theorem Consistent.resting_of_worker (h : Consistent orders history s) (hworker : s.worker = true) :
    ∀ id order, s.partition.orderManager.orderMap id = some order →
      s.partition.orderBook.Contains id := by
  rcases h.resting with hresting | ⟨hnone, _⟩
  · exact hresting
  · cases hworker.symm.trans hnone

theorem Consistent.keepsBook (h : Consistent orders history s) : s.KeepsBook where
  once := fun hworker => (Partition.bookedOnce_iff h.book).mpr (h.resting_of_worker hworker)
  unchanged := fun _ => h.unchanged

theorem Consistent.start {iteration : List OrderID} (h : Consistent orders history s)
    (hiteration : s.partition.Enumerates iteration)
    (hnot : ∀ id, (s.partition.orderManager.orderMap id).isSome →
      ¬s.partition.orderBook.Contains id) :
    Consistent orders (history ++ [.start iteration])
      { s with partition := s.partition.startWith iteration, worker := true } := by
  have hmanager := Partition.startWith_orderManager s.partition iteration
  have hids : history.flatMap PartitionEvent.newIds =
      (history ++ [PartitionEvent.start iteration]).flatMap PartitionEvent.newIds := by
    rw [List.flatMap_append]
    exact (List.append_nil _).symm
  have hpointers := Partition.pointers_startWith_perm h.addressed
    fun id hid => (hiteration.2 id).mp hid
  refine ⟨?_, ?_, ?_, Or.inl ?_, ?_⟩
  · exact Partition.startWith_bookInvariant h.book h.addressed h.opens hiteration.1
      fun id hid => hnot id ((hiteration.2 id).mp hid)
  · rw [hmanager, ← hids]
    exact h.managed
  · rw [hmanager]
    exact h.opens
  · intro id order horder
    rw [hmanager] at horder
    rw [← OrderBook.mem_pointers, hpointers.mem_iff]
    refine List.mem_append_left _ ((hiteration.2 id).mpr ?_)
    exact Option.isSome_iff_exists.mpr ⟨order, horder⟩
  · intro book hbook
    rcases h.resting with hresting | ⟨_, hnone, _⟩
    · -- every order is in the book, so that there is none to insert
      have hnil : iteration = [] := by
        rw [List.eq_nil_iff_forall_not_mem]
        intro id hid
        have hsome := (hiteration.2 id).mp hid
        obtain ⟨order, horder⟩ := Option.isSome_iff_exists.mp hsome
        exact hnot id hsome (hresting id order horder)
      rw [hnil]
      exact h.unchanged book hbook
    · rw [hnone] at hbook
      cases hbook

/-- An order that is inserted again is in the book twice. -/
theorem not_bookedOnce_startWith {iteration : List OrderID} (h : Consistent orders history s)
    (hiteration : s.partition.Enumerates iteration) {id : OrderID}
    (hsome : (s.partition.orderManager.orderMap id).isSome)
    (hcontains : s.partition.orderBook.Contains id) :
    ¬(s.partition.startWith iteration).BookedOnce := by
  intro honce
  obtain ⟨order, horder⟩ := Option.isSome_iff_exists.mp hsome
  have hpointers := Partition.pointers_startWith_perm h.addressed
    fun id hid => (hiteration.2 id).mp hid
  have hcount := honce.once id order
    (by rwa [Partition.startWith_orderManager])
  have hlisted : 0 < iteration.count id :=
    List.count_pos_iff.mpr ((hiteration.2 id).mpr hsome)
  have hbooked : 0 < s.partition.orderBook.pointers.count id :=
    List.count_pos_iff.mpr (OrderBook.mem_pointers.mpr hcontains)
  rw [hpointers.count_eq, List.count_append] at hcount
  omega

/-- A command books its trades completely exactly if the orders are booked once
after it. -/
theorem Consistent.process {cmd : Command P} {partition : Partition P}
    (h : Consistent orders history s) (hworker : s.worker = true)
    (hcmd : Admissible (orders.map Order.coreOrderId ++ history.flatMap PartitionEvent.newIds) cmd)
    (hpartition : Partition.processCommand clock s.partition cmd = some partition) :
    (s.partition.FillsOne cmd → Consistent orders (history ++ [.process cmd])
      { s with partition := partition, stoppedBook := none }) ∧
    (partition.BookedOnce → s.partition.FillsOne cmd) := by
  have hresting : ∀ id order, s.partition.orderManager.orderMap id = some order →
      s.partition.orderBook.Contains id ∧ 0 < order.remainingQuantity := fun id order horder =>
    ⟨h.resting_of_worker hworker id order horder,
      Order.remainingQuantity_pos_iff.mpr (h.opens id order horder)⟩
  have hbook := Partition.processCommand_bookInvariant h.sound hcmd h.book hpartition
  obtain ⟨_, hdefined, hsound⟩ := Partition.processCommand_sound h.sound hcmd clock
  obtain rfl := Option.some.inj (hpartition.symm.trans hdefined)
  have hrests := Partition.registered_resting_step h.sound hcmd hresting hpartition
  constructor
  · intro hfills
    have hall := hrests.mpr hfills
    refine ⟨hbook, ?_, fun id order horder => ?_, Or.inl fun id order horder => ?_, ?_⟩
    · rw [List.flatMap_append, ← List.append_assoc, List.flatMap_singleton]
      exact hsound.managed
    · exact Order.remainingQuantity_pos_iff.mp (hall id order horder).2
    · exact (hall id order horder).1
    · exact fun book hbook => nomatch hbook
  · intro honce
    apply hrests.mp
    intro id order horder
    have hcontains := (Partition.bookedOnce_iff hbook).mp honce id order horder
    obtain ⟨order', horder', _, hopen, _⟩ := hbook.sound.contains_orderMap hcontains
    obtain rfl := Option.some.inj (horder.symm.trans horder')
    exact ⟨hcontains, Order.remainingQuantity_pos_iff.mpr hopen⟩

theorem step_consistent (h : Consistent orders history s) (hlegal : Legal orders history s event) :
    ∃ t, step clock s event = some t ∧
      (s.Harmless event → Consistent orders (history ++ [event]) t) ∧
      (t.KeepsBook → s.Harmless event) := by
  have hquiet {event : PartitionEvent P} (hnew : event.newIds = []) :
      (history ++ [event]).flatMap PartitionEvent.newIds =
        history.flatMap PartitionEvent.newIds := by
    rw [List.flatMap_append, List.flatMap_singleton, hnew, List.append_nil]
  cases event with
  | start iteration =>
      by_cases hworker : s.worker = true
      · refine ⟨s, if_pos hworker, fun _ => ?_, fun _ => Or.inl hworker⟩
        exact ⟨h.book, by rw [hquiet rfl]; exact h.managed, h.opens, h.resting, h.unchanged⟩
      · refine ⟨_, if_neg hworker, fun hharmless => ?_, fun hkeeps => Or.inr ?_⟩
        · exact h.start hlegal (hharmless.resolve_left hworker)
        · intro id hsome hcontains
          exact not_bookedOnce_startWith h hlegal hsome hcontains (hkeeps.once rfl)
  | stop =>
      by_cases hworker : s.worker = true
      · refine ⟨_, if_pos hworker, fun _ => ?_, fun _ => trivial⟩
        exact {
          book := h.book
          managed := by rw [hquiet rfl]; exact h.managed
          opens := h.opens
          resting := Or.inl (h.resting_of_worker hworker)
          unchanged := fun book hbook => Option.some.inj hbook }
      · refine ⟨s, if_neg hworker, fun _ => ?_, fun _ => trivial⟩
        exact ⟨h.book, by rw [hquiet rfl]; exact h.managed, h.opens, h.resting, h.unchanged⟩
  | process cmd =>
      obtain ⟨hworker, hcmd⟩ := hlegal
      obtain ⟨partition, hpartition, _⟩ := Partition.processCommand_sound h.sound hcmd clock
      obtain ⟨hkeeps, hneeds⟩ := h.process hworker hcmd hpartition
      refine ⟨{ s with partition := partition, stoppedBook := none }, ?_, hkeeps, ?_⟩
      · rw [step, hpartition]
        rfl
      · exact fun hkept => hneeds (hkept.once hworker)

/-- The orders of the database are open limit orders. -/
theorem consistent_load (symbol : Instrument) (currentId : TradeID)
    (horders : ∀ order ∈ orders, order.orderType = .limit ∧ 0 < order.openQuantity) :
    Consistent orders [] (load symbol currentId orders) := by
  have hfind {id : OrderID} {order : Order P}
      (horder : (load symbol currentId orders).partition.orderManager.orderMap id = some order) :
      order ∈ orders ∧ order.coreOrderId = id := by
    have hmap : (load symbol currentId orders).partition.orderManager.orderMap id =
        orders.find? fun order => order.coreOrderId = id :=
      OrderManager.foldl_addOrder_orderMap .empty orders id
    rw [hmap] at horder
    have hid := List.find?_some horder
    exact ⟨List.mem_of_find?_eq_some horder, of_decide_eq_true hid⟩
  have hempty : (load symbol currentId orders).partition.orderBook = .empty symbol := rfl
  refine ⟨fun side => ?_, fun id order horder => ?_, fun id order horder => ?_, Or.inr ?_, ?_⟩
  · rw [hempty, OrderBook.empty_sideMap]
    exact ⟨List.Pairwise.nil, Levels.noEmpty_nil, Levels.all_nil, List.nodup_nil⟩
  · obtain ⟨hmem, rfl⟩ := hfind horder
    exact ⟨rfl, (horders order hmem).1, List.mem_append_left _ (List.mem_map_of_mem hmem)⟩
  · exact (horders order (hfind horder).1).2
  · refine ⟨rfl, rfl, fun id hid => ?_⟩
    rw [hempty] at hid
    exact (List.not_mem_nil (OrderBook.mem_pointers.mpr hid)).elim
  · exact fun book hbook => nomatch hbook

/-- A run of a partition follows no pointer to an order that is gone and keeps every
order booked once exactly if no start inserts an order that is in the book already and
no command leaves an order behind. -/
theorem keepsBook_iff (symbol : Instrument) (currentId : TradeID) (clock : Clock)
    (horders : ∀ order ∈ orders, order.orderType = .limit ∧ 0 < order.openQuantity)
    {events : List (PartitionEvent P)}
    (hlegal : PartialRun.Follows (step clock) (Legal orders) [] (load symbol currentId orders)
      events) :
    ((PartialRun.run (step clock) (load symbol currentId orders) events).isSome ∧
        PartialRun.Always (step clock) KeepsBook (load symbol currentId orders) events) ↔
      PartialRun.Follows (step clock) (fun _ => Harmless) [] (load symbol currentId orders)
        events :=
  PartialRun.defined_and_always_iff_follows (fun _ _ h => h.keepsBook)
    (fun _ _ _ h hok => step_consistent h hok) (consistent_load symbol currentId horders) hlegal

end Steps

/-- The first start meets every order that has been loaded. -/
theorem enumerates_load {orders : List (Order P)}
    (hnodup : (orders.map Order.coreOrderId).Nodup) (symbol : Instrument) (currentId : TradeID) :
    (load symbol currentId orders).partition.Enumerates (orders.map Order.coreOrderId) := by
  refine ⟨hnodup, fun id => ?_⟩
  have hmap : (load symbol currentId orders).partition.orderManager.orderMap id =
      orders.find? fun order => order.coreOrderId = id :=
    OrderManager.foldl_addOrder_orderMap .empty orders id
  simp [hmap]

namespace Sample

/-- An order in the database. -/
def resting : Order ℚ := .create "A" 1 .eurusd "7" "S1" .buy .limit .day 3 10 0

theorem nodup_resting : ([resting].map Order.coreOrderId).Nodup := by
  decide

theorem resting_open : ∀ order ∈ [resting], order.orderType = .limit ∧ 0 < order.openQuantity := by
  decide

/-- The order is cancelled and the worker stopped. -/
def cancelled : List (PartitionEvent ℚ) :=
  [.start [1], .process (Partition.Sample.cancel 1), .stop]

theorem legal_cancelled : PartialRun.Follows (step fun _ => 0) (Legal [resting]) []
    (load .eurusd 0 [resting]) cancelled := by
  refine ⟨enumerates_load nodup_resting .eurusd 0, fun t ht => ?_⟩
  refine ⟨⟨?_, ?_⟩, fun _ _ => ⟨trivial, fun _ _ => trivial⟩⟩
  · exact (congrArg worker (Option.some.inj ht)).symm
  · exact ⟨fun _ hid => (List.not_mem_nil hid).elim, trivial⟩

/-- A start, a stop and a start. -/
def restarted : List (PartitionEvent ℚ) := [.start [1], .stop, .start [1]]

end Sample

theorem keepsBook_iff_sample :
    ((PartialRun.run (step fun _ => 0) (load .eurusd 0 [Sample.resting])
          Sample.cancelled).isSome ∧
        PartialRun.Always (step fun _ => 0) KeepsBook (load .eurusd 0 [Sample.resting])
          Sample.cancelled) ↔
      PartialRun.Follows (step fun _ => 0) (fun _ => Harmless) []
        (load .eurusd 0 [Sample.resting]) Sample.cancelled :=
  keepsBook_iff .eurusd 0 (fun _ => 0) Sample.resting_open Sample.legal_cancelled

/-- After the second start the order is in the book twice. -/
theorem restarted_order_twice :
    PartialRun.Follows (step fun _ => 0) (Legal [Sample.resting]) []
        (load .eurusd 0 [Sample.resting]) Sample.restarted ∧
      ∃ s, PartialRun.run (step fun _ => 0) (load .eurusd 0 [Sample.resting])
        Sample.restarted = some s ∧ s.partition.orderBook.bidMap = [(10, [1, 1])] ∧
          ¬s.KeepsBook := by
  have hloaded := enumerates_load Sample.nodup_resting .eurusd 0
  refine ⟨⟨hloaded, fun t ht => ⟨trivial, fun u hu => ⟨?_, fun _ _ => trivial⟩⟩⟩, ?_⟩
  · rw [← Option.some.inj ht] at hu
    rw [← Option.some.inj hu]
    exact hloaded
  · refine ⟨_, rfl, by decide +kernel, fun hkeeps => ?_⟩
    have htwice := (hkeeps.once rfl).noTwice .buy (10, [1, 1]) (by decide +kernel)
    exact absurd htwice (by decide)

end PartitionProcess

end BetaTrader
