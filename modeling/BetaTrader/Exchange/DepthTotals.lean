import BetaTrader.Client.DepthReplica
import BetaTrader.Exchange.LimitProtection

/-!
# Totals that fit

A snapshot shows the total of a level in the 64 bits of one quantity, and nothing limits
the total: the decoders and the risk check look at one order at a time.  The totals are
right as long as every order that comes to rest finds room in its level.
-/

namespace BetaTrader

variable {P : Type}

/-- What is open of the order behind a pointer. -/
def OrderManager.openAt (manager : OrderManager P) (ptr : OrderPtr) : ℕ :=
  (manager.orderMap ptr).elim 0 Order.openQuantity

theorem OrderManager.openAt_of_some {manager : OrderManager P} {ptr : OrderPtr} {order : Order P}
    (h : manager.orderMap ptr = some order) : manager.openAt ptr = order.openQuantity := by
  rw [openAt, h, Option.elim_some]

namespace Partition

open Matcher

section Totals

/-- The total that is open of the orders of a level. -/
def totalOpen (s : Partition P) (level : PriceLevel) : ℕ :=
  Allocation.total s.orderManager.openAt level

/-- The levels in the order in which a snapshot shows them. -/
def levels (s : Partition P) : List (MDEntryType × P × PriceLevel) :=
  (s.orderBook.bidMap.map fun l => (.bid, l)) ++ (s.orderBook.askMap.map fun l => (.offer, l))

/-- A snapshot has one entry for each level, of the size of its total, and no size is
zero. -/
def TotalsShown (s : Partition P) : Prop :=
  ∀ sessionId, ∃ snapshot, s.orderBook.publishSnapshot s.orderManager sessionId = some snapshot ∧
    (snapshot.entries.map fun entry => (entry.entryType, entry.price, entry.size.toNat)) =
      (s.levels.map fun l => (l.1, l.2.1, s.totalOpen l.2.2)) ∧
    ∀ entry ∈ snapshot.entries, entry.size ≠ 0

/-- The totals fit in a quantity. -/
def LevelsFit (s : Partition P) : Prop := ∀ l ∈ s.levels, s.totalOpen l.2.2 < 2 ^ 64

theorem forall_levels {s : Partition P} {p : PriceLevel → Prop} :
    (∀ l ∈ s.levels, p l.2.2) ↔ ∀ side, ∀ l ∈ s.orderBook.sideMap side, p l.2 := by
  simp only [levels, List.forall_mem_append, List.forall_mem_map]
  constructor
  · rintro ⟨hbid, hask⟩ (_ | _)
    · exact hbid
    · exact hask
  · exact fun h => ⟨h .buy, h .sell⟩

theorem total_openAt {manager : OrderManager P} {level : PriceLevel}
    (h : ∀ ptr ∈ level, ∃ order, manager.orderMap ptr = some order) :
    Allocation.total Order.openQuantity (restingOrders manager level) =
      Allocation.total manager.openAt level := by
  induction level with
  | nil => rfl
  | cons ptr level ih =>
      obtain ⟨order, horder⟩ := h ptr List.mem_cons_self
      rw [restingOrders_cons horder, Allocation.total_cons, Allocation.total_cons,
        OrderManager.openAt_of_some horder, ih fun p hp => h p (List.mem_cons_of_mem ptr hp)]

/-- One of the two loops of `publishSnapshot`: every total is reduced to 64 bits. -/
theorem snapshotEntries_totals {manager : OrderManager P} {side : OrderSide} {map : PriceMap P}
    (h : SideSound manager side map) (entryType : MDEntryType) (position : UInt32) :
    ∃ entries, OrderBook.snapshotEntries manager entryType position map = some entries ∧
      (entries.map fun entry => (entry.entryType, entry.price, entry.size.toNat)) = map.map fun l =>
        (entryType, l.1, Allocation.total manager.openAt l.2 % 2 ^ 64) := by
  induction map generalizing position with
  | nil => exact ⟨[], rfl, rfl⟩
  | cons l map ih =>
      obtain ⟨entries, hentries, htotals⟩ := ih h.tail (position + 1)
      obtain ⟨price, level⟩ := l
      obtain ⟨front, orders, rfl⟩ :=
        List.exists_cons_of_ne_nil (Levels.noEmpty_cons.mp h.noEmpty).1
      have hmanaged (ptr : OrderPtr) (hptr : ptr ∈ front :: orders) :
          ∃ order, manager.orderMap ptr = some order := by
        obtain ⟨order, horder, _⟩ := h.rests ptr (List.mem_append_left _ hptr)
        exact ⟨order, horder⟩
      obtain ⟨first, hfirst⟩ := hmanaged front List.mem_cons_self
      refine ⟨_, by
        simp only [OrderBook.snapshotEntries, totalQuantity_eq_of_managed hmanaged,
          OrderManager.deref, hfirst, hentries, Option.bind_eq_bind, Option.bind_some]
        rfl, ?_⟩
      rw [List.map_cons, List.map_cons, htotals, total_openAt hmanaged, UInt64.toNat_ofNat']

theorem publishSnapshot_totals {s : Partition P} (h : BookSound s.orderManager s.orderBook)
    (sessionId : SessionID) :
    ∃ snapshot, s.orderBook.publishSnapshot s.orderManager sessionId = some snapshot ∧
      (snapshot.entries.map fun entry => (entry.entryType, entry.price, entry.size.toNat)) =
        s.levels.map fun l => (l.1, l.2.1, s.totalOpen l.2.2 % 2 ^ 64) := by
  obtain ⟨bids, hbids, hbidTotals⟩ := snapshotEntries_totals (h .buy) .bid 1
  obtain ⟨asks, hasks, haskTotals⟩ := snapshotEntries_totals (h .sell) .offer 1
  simp only [OrderBook.sideMap] at hbids hasks hbidTotals haskTotals
  refine ⟨_, by
    simp only [OrderBook.publishSnapshot, hbids, hasks, Option.bind_eq_bind, Option.bind_some]
    rfl, ?_⟩
  rw [List.map_append, hbidTotals, haskTotals, levels, List.map_append, List.map_map, List.map_map]
  rfl

/-- A level has an order, and the order is open. -/
theorem totalOpen_pos {s : Partition P} (h : BookSound s.orderManager s.orderBook) :
    ∀ l ∈ s.levels, 0 < s.totalOpen l.2.2 := by
  refine (forall_levels (p := fun level => 0 < s.totalOpen level)).mpr fun side l hl => ?_
  refine Allocation.total_pos (fun ptr hptr => ?_) ((h side).noEmpty l hl)
  obtain ⟨order, horder, _, _, hopen⟩ := (h side).rests ptr (Levels.mem_queue.mpr ⟨l, hl, hptr⟩)
  rw [OrderManager.openAt_of_some horder]
  exact hopen

theorem shown_iff_levelsFit {s : Partition P} (h : BookSound s.orderManager s.orderBook) :
    s.TotalsShown ↔ s.LevelsFit := by
  constructor
  · intro hshown l hl
    obtain ⟨snapshot, hsnapshot, htotals, _⟩ := hshown 0
    obtain ⟨snapshot', hsnapshot', hreduced⟩ := publishSnapshot_totals h 0
    obtain rfl := Option.some.inj (hsnapshot.symm.trans hsnapshot')
    have heq := List.map_inj_left.mp (htotals.symm.trans hreduced) l hl
    have htotal : s.totalOpen l.2.2 = s.totalOpen l.2.2 % 2 ^ 64 := congrArg (fun e => e.2.2) heq
    rw [htotal]
    exact Nat.mod_lt _ (Nat.two_pow_pos 64)
  · intro hfit sessionId
    obtain ⟨snapshot, hsnapshot, hreduced⟩ := publishSnapshot_totals h sessionId
    have hshown : (snapshot.entries.map fun entry =>
        (entry.entryType, entry.price, entry.size.toNat)) =
          s.levels.map fun l => (l.1, l.2.1, s.totalOpen l.2.2) := by
      refine hreduced.trans (List.map_congr_left fun l hl => ?_)
      rw [Nat.mod_eq_of_lt (hfit l hl)]
    refine ⟨snapshot, hsnapshot, hshown, fun entry hentry hzero => ?_⟩
    have hmem : (entry.entryType, entry.price, entry.size.toNat) ∈
        s.levels.map fun l => (l.1, l.2.1, s.totalOpen l.2.2) :=
      hshown ▸ List.mem_map_of_mem hentry
    obtain ⟨l, hl, heq⟩ := List.mem_map.mp hmem
    have htotal : s.totalOpen l.2.2 = entry.size.toNat := congrArg (fun e => e.2.2) heq
    have hpos := totalOpen_pos h l hl
    rw [htotal, hzero] at hpos
    exact Nat.lt_irrefl 0 hpos

end Totals

section Steps

variable [PriceArith P] {ids : List OrderID} {s s' : Partition P} {order : Order P}
  {cmd : Command P} {clock : Clock}

/-- The other orders of the level that the order joins, and what the orders that it
reaches leave of it, fit in a quantity. -/
def RoomFor (s : Partition P) (order : Order P) : Prop :=
  s.totalOpen (Levels.joined order.side.before order.price
    ((s.orderBook.without order.coreOrderId).sideMap order.side)) +
      (order.openQuantity - Allocation.total Order.openQuantity (s.crossing order)) < 2 ^ 64

/-- A limit order that the command takes to the matcher has room. -/
def HasRoom (s : Partition P) (cmd : Command P) : Prop :=
  ∀ order, s.incomingOrder cmd = some order → order.orderType = .limit → s.RoomFor order

omit [PriceArith P] in
theorem levelsFit_iff : s.LevelsFit ↔
    ∀ side, ∀ l ∈ s.orderBook.sideMap side, s.totalOpen l.2 < 2 ^ 64 :=
  forall_levels (p := fun level => s.totalOpen level < 2 ^ 64)

omit [PriceArith P] in
/-- Parts of the levels, with no more open than before, fit if the levels did. -/
theorem LevelsFit.shrink (hfit : s.LevelsFit) {manager' : OrderManager P} {book' : OrderBook P}
    (hlevels : ∀ side, ∀ l ∈ book'.sideMap side, ∃ m ∈ s.orderBook.sideMap side,
      l.2.Sublist m.2)
    (hopen : ∀ ptr, book'.Contains ptr → manager'.openAt ptr ≤ s.orderManager.openAt ptr) :
    ∀ side, ∀ l ∈ book'.sideMap side, Allocation.total manager'.openAt l.2 < 2 ^ 64 := by
  intro side l hl
  obtain ⟨m, hm, hsub⟩ := hlevels side l hl
  apply (Allocation.total_le_of_sublist hsub fun ptr hptr => ?_).trans_lt
    (levelsFit_iff.mp hfit side m hm)
  exact hopen ptr (OrderBook.contains_iff.mpr ⟨side, Levels.mem_queue.mpr ⟨l, hl, hptr⟩⟩)

omit [PriceArith P] in
theorem sublist_of_mem_without {book : OrderBook P} {id : OrderID} {side : OrderSide}
    {l : P × PriceLevel} (hl : l ∈ (book.without id).sideMap side) :
    ∃ m ∈ book.sideMap side, l.2.Sublist m.2 := by
  rw [OrderBook.sideMap_without] at hl
  exact Levels.sublist_of_mem_prune hl

theorem sublist_of_mem_afterMatch {book : OrderBook P} {id : OrderID} {manager : OrderManager P}
    {side : OrderSide} {l : P × PriceLevel}
    (hl : l ∈ ((book.without id).afterMatch manager order).sideMap side) :
    ∃ m ∈ book.sideMap side, l.2.Sublist m.2 := by
  rw [OrderBook.afterMatch, OrderBook.sideMap_setSideMap] at hl
  split_ifs at hl with hside
  · obtain ⟨m, hm, hsub⟩ := Levels.sublist_of_mem_prune hl
    obtain ⟨k, hk, hsub'⟩ := sublist_of_mem_without hm
    exact ⟨k, hside ▸ hk, hsub.trans hsub'⟩
  · exact sublist_of_mem_without hl

omit [PriceArith P] in
theorem LevelsFit.cancelled (hfit : s.LevelsFit) (clock : Clock) (id : OrderID)
    (publication : Publication P) :
    (((s.cancelled clock id).publish publication).retire id).LevelsFit := by
  refine levelsFit_iff.mpr (hfit.shrink (fun side l hl => sublist_of_mem_without hl) ?_)
  intro ptr hptr
  have hother : (s.orderManager.removeOrderById id).orderMap ptr = s.orderManager.orderMap ptr :=
    OrderManager.removeOrderById_orderMap_of_ne _ (OrderBook.contains_without.mp hptr).1
  exact (congrArg (fun order => Option.elim order 0 Order.openQuantity) hother).le

/-- A limit order of which nothing is left has room in what there was before. -/
theorem roomFor_of_served (hfit : s.LevelsFit) (hzero : (s.served order).openQuantity = 0) :
    s.RoomFor order := by
  rw [RoomFor, ← served_openQuantity, hzero, Nat.add_zero]
  rcases Levels.joined_eq_nil_or_mem order.side.before order.price
    ((s.orderBook.without order.coreOrderId).sideMap order.side) with hnil | ⟨l, hl, heq⟩
  · rw [hnil]
    exact Nat.two_pow_pos 64
  · rw [heq]
    exact hfit.shrink (fun side l hl => sublist_of_mem_without hl) (fun _ _ => Nat.le_refl _)
      order.side l hl

section Executed

variable (hinv : s.Sound ids) (hcmd : Admissible ids cmd) (h : s.incomingOrder cmd = some order)
  (clock : Clock)

include hinv hcmd h

/-- The match takes from the orders that it reaches, and from no other. -/
theorem openAt_executed {ptr : OrderPtr} (hptr : ptr ≠ order.coreOrderId) :
    (s.executed clock order cmd).orderManager.openAt ptr ≤ s.orderManager.openAt ptr ∧
      (ptr ∉ touchedIds (s.fills order) →
        (s.executed clock order cmd).orderManager.openAt ptr = s.orderManager.openAt ptr) := by
  rcases executed_other hinv hcmd h clock hptr with
    ⟨_, hsame⟩ | ⟨f, hf, rfl, hold, ⟨_, _, hgone⟩ | ⟨_, hnew⟩⟩
  · have heq : (s.executed clock order cmd).orderManager.openAt ptr =
        s.orderManager.openAt ptr :=
      congrArg (fun order => Option.elim order 0 Order.openQuantity) hsame
    exact ⟨heq.le, fun _ => heq⟩
  · refine ⟨?_, fun hnot => absurd (List.mem_map_of_mem hf) hnot⟩
    rw [OrderManager.openAt, hgone]
    exact Nat.zero_le _
  · refine ⟨?_, fun hnot => absurd (List.mem_map_of_mem hf) hnot⟩
    have hle := (mem_fills hinv hcmd h hf).2.2.2
    rw [OrderManager.openAt_of_some hnew, OrderManager.openAt_of_some hold,
      Order.openQuantity_giveFill hle]
    exact Nat.sub_le _ _

/-- The orders of its own side are none of those that it reaches. -/
theorem openAt_ownSide {ptr : OrderPtr}
    (hptr : ptr ∈ Levels.queue ((s.orderBook.without order.coreOrderId).sideMap order.side)) :
    (s.executed clock order cmd).orderManager.openAt ptr = s.orderManager.openAt ptr := by
  have hentered := hinv.prepared hcmd h clock
  have hne : ptr ≠ order.coreOrderId :=
    (OrderBook.contains_without.mp (OrderBook.contains_iff.mpr ⟨order.side, hptr⟩)).1
  apply (openAt_executed hinv hcmd h clock hne).2
  rw [← prepared_fills hinv hcmd h clock]
  apply hentered.book.notMem_touchedIds hentered.incoming_mem hentered.notMem
    (OrderSide.opposite_ne order.side).symm
  rw [prepared_orderBook hinv hcmd h]
  exact hptr

theorem totalOpen_joined : Allocation.total (s.executed clock order cmd).orderManager.openAt
      (Levels.joined order.side.before order.price
        ((s.orderBook.without order.coreOrderId).sideMap order.side)) =
    s.totalOpen (Levels.joined order.side.before order.price
      ((s.orderBook.without order.coreOrderId).sideMap order.side)) := by
  rcases Levels.joined_eq_nil_or_mem order.side.before order.price
    ((s.orderBook.without order.coreOrderId).sideMap order.side) with hnil | ⟨l, hl, heq⟩
  · rw [hnil]
    rfl
  · rw [heq]
    refine Allocation.total_congr fun ptr hptr => ?_
    exact openAt_ownSide hinv hcmd h clock (Levels.mem_queue.mpr ⟨l, hl, hptr⟩)

theorem orderBook_executed : (s.executed clock order cmd).orderBook =
    if s.Remains order then ((s.orderBook.without order.coreOrderId).afterMatch
      (s.prepared clock order cmd).orderManager order).push (s.served order)
    else (s.orderBook.without order.coreOrderId).afterMatch
      (s.prepared clock order cmd).orderManager order := by
  have hbook : (s.executed clock order cmd).orderBook = _ := afterAll_orderBook
  simp only [hbook, prepared_remains hinv hcmd h, prepared_served hinv hcmd h,
    prepared_orderBook hinv hcmd h]

/-- The level that the order joins, with the order. -/
theorem totalOpen_joined_append (hremains : s.Remains order) :
    (s.executed clock order cmd).totalOpen (Levels.joined order.side.before order.price
        ((s.orderBook.without order.coreOrderId).sideMap order.side) ++ [order.coreOrderId]) =
      s.totalOpen (Levels.joined order.side.before order.price
        ((s.orderBook.without order.coreOrderId).sideMap order.side)) +
          (s.served order).openQuantity := by
  have hopen : (s.executed clock order cmd).orderManager.openAt order.coreOrderId =
      (s.served order).openQuantity := by
    apply OrderManager.openAt_of_some
    rw [executed_incoming hinv hcmd h, if_pos hremains]
  rw [totalOpen, Allocation.total_append, totalOpen_joined hinv hcmd h clock,
    Allocation.total_cons, Allocation.total_nil, hopen, Nat.add_zero]

/-- Between the match and the insertion everything fits. -/
theorem fits_afterMatch (hfit : s.LevelsFit) :
    ∀ side, ∀ l ∈ ((s.orderBook.without order.coreOrderId).afterMatch
      (s.prepared clock order cmd).orderManager order).sideMap side,
        (s.executed clock order cmd).totalOpen l.2 < 2 ^ 64 := by
  apply hfit.shrink (fun side l hl => sublist_of_mem_afterMatch hl)
  intro ptr hptr
  have hne := (OrderBook.contains_without.mp (OrderBook.contains_afterMatch hptr)).1
  exact (openAt_executed hinv hcmd h clock hne).1

theorem levelsFit_executed_of_remains (hfit : s.LevelsFit) (hremains : s.Remains order) :
    (s.executed clock order cmd).LevelsFit ↔ s.RoomFor order := by
  have hmatched := fits_afterMatch hinv hcmd h clock hfit
  have hown : ((s.orderBook.without order.coreOrderId).afterMatch
      (s.prepared clock order cmd).orderManager order).sideMap order.side =
        (s.orderBook.without order.coreOrderId).sideMap order.side :=
    OrderBook.sideMap_setSideMap_of_ne _ (OrderSide.opposite_ne order.side).symm _
  have hjoined := Levels.forall_pushBack_iff order.side.before order.price order.coreOrderId
    (p := fun level => (s.executed clock order cmd).totalOpen level < 2 ^ 64)
    (hmatched order.side)
  rw [hown, totalOpen_joined_append hinv hcmd h clock hremains] at hjoined
  have hpush (side : OrderSide) : (((s.orderBook.without order.coreOrderId).afterMatch
      (s.prepared clock order cmd).orderManager order).push (s.served order)).sideMap side =
        if side = order.side then Levels.pushBack order.side.before order.price
          order.coreOrderId ((s.orderBook.without order.coreOrderId).sideMap order.side)
        else ((s.orderBook.without order.coreOrderId).afterMatch
          (s.prepared clock order cmd).orderManager order).sideMap side := by
    obtain ⟨qty, status, hserved⟩ := s.served_set order
    rw [hserved, OrderBook.push, OrderBook.sideMap_setSideMap, ← hown]
    rfl
  rw [levelsFit_iff, orderBook_executed hinv hcmd h clock, if_pos hremains, RoomFor,
    ← served_openQuantity, ← hjoined]
  simp only [hpush]
  constructor
  · intro hall l hl
    exact hall order.side l (by rw [if_pos rfl]; exact hl)
  · intro hall side l hl
    split_ifs at hl
    · exact hall l hl
    · exact hmatched side l hl

theorem levelsFit_executed (hfit : s.LevelsFit) :
    (s.executed clock order cmd).LevelsFit ↔ (order.orderType = .limit → s.RoomFor order) := by
  by_cases hremains : s.Remains order
  · rw [levelsFit_executed_of_remains hinv hcmd h clock hfit hremains]
    simp [hremains.2]
  · have hmatched := fits_afterMatch hinv hcmd h clock hfit
    rw [levelsFit_iff, orderBook_executed hinv hcmd h clock, if_neg hremains]
    refine iff_of_true hmatched fun hlimit => ?_
    apply roomFor_of_served hfit
    by_contra hne
    exact hremains ⟨Nat.pos_of_ne_zero hne, hlimit⟩

end Executed

theorem levelsFit_step (hinv : s.Sound ids) (hcmd : Admissible ids cmd) (hfit : s.LevelsFit)
    (h : processCommand clock s cmd = some s') : s'.LevelsFit ↔ s.HasRoom cmd := by
  rcases processCommand_cases hinv hcmd clock with
    ⟨hnone, clientId, symbol, side, reason, heq⟩ | ⟨c, order, rfl, _, _, heq⟩ |
      ⟨order, hincoming, heq⟩
  · obtain rfl := Option.some.inj (heq.symm.trans h)
    exact iff_of_true hfit fun order horder => by cases hnone.symm.trans horder
  · obtain rfl := Option.some.inj (heq.symm.trans h)
    exact iff_of_true (hfit.cancelled clock c.orderId _) fun order horder => by cases horder
  · obtain rfl := Option.some.inj (heq.symm.trans h)
    rw [levelsFit_executed hinv hcmd hincoming clock hfit, HasRoom]
    simp only [hincoming, Option.some.injEq, forall_eq']

/-- In a run every snapshot shows the totals of the levels exactly if every command finds
room for its order. -/
theorem totals_shown_iff {commands : List (Command P)} (h : Valid commands) (clock : Clock)
    (symbol : Instrument) (currentId : TradeID) :
    ∃ s, processAll clock (init symbol currentId) commands = some s ∧
      (PartialRun.Always (processCommand clock) TotalsShown (init symbol currentId) commands ↔
        PartialRun.Follows (processCommand clock) (fun _ => HasRoom) [] (init symbol currentId)
          commands) := by
  refine PartialRun.always_iff_follows (fun history s => s.Sound (newIds history))
    (fun history s cmd hinv hcmd => ?_) (sound_init symbol currentId) ?_ (h.follows clock _)
  · obtain ⟨s', hs', hinv'⟩ := processCommand_sound hinv hcmd clock
    rw [← newIds_concat] at hinv'
    refine ⟨s', hs', hinv', fun hshown => ?_⟩
    rw [shown_iff_levelsFit hinv'.book]
    exact levelsFit_step hinv hcmd ((shown_iff_levelsFit hinv.book).mp hshown) hs'
  · rw [shown_iff_levelsFit (sound_init symbol currentId).book, LevelsFit]
    intro l hl
    cases hl

end Steps

namespace Sample

/-- A buy of half of what a quantity can hold. -/
def halfBuy (id : OrderID) (sender clOrdID : String) : NewOrder Double :=
  (request sender clOrdID .buy 9223372036854775808 (.finite 10)).newOrder 1 id 0

theorem fromWire_halfBuys : ∀ c ∈ [.newOrder (halfBuy 1 "B1" "A"), .newOrder (halfBuy 2 "B2" "B")],
    Command.FromWire c := by
  have h : BinaryToOrderRequestConverter.convert
      (newOrderSingle "B1" "A" "1" "9223372036854775808" "10") =
        some (request "B1" "A" .buy 9223372036854775808 (.finite 10)) := by decide +kernel
  have h' : BinaryToOrderRequestConverter.convert
      (newOrderSingle "B2" "B" "1" "9223372036854775808" "10") =
        some (request "B2" "B" .buy 9223372036854775808 (.finite 10)) := by decide +kernel
  simp only [List.forall_mem_cons, List.not_mem_nil, false_imp_iff, implies_true, and_true]
  exact ⟨.newOrder 1 1 0 h, .newOrder 1 2 0 h'⟩

end Sample

theorem totals_shown_iff_sample :
    ∃ s, processAll (fun _ => 0) (init .eurusd 0) Sample.commands = some s ∧
      (PartialRun.Always (processCommand fun _ => 0) TotalsShown (init .eurusd 0)
          Sample.commands ↔
        PartialRun.Follows (processCommand fun _ => 0) (fun _ => HasRoom) [] (init .eurusd 0)
          Sample.commands) :=
  totals_shown_iff Sample.valid_commands (fun _ => 0) .eurusd 0

/-- Two buys from the wire rest at one price, and its size is shown as zero. -/
theorem full_level_shown_empty :
    Valid [.newOrder (Sample.halfBuy 1 "B1" "A"), .newOrder (Sample.halfBuy 2 "B2" "B")] ∧
    (∀ c ∈ [.newOrder (Sample.halfBuy 1 "B1" "A"), .newOrder (Sample.halfBuy 2 "B2" "B")],
      Command.FromWire c) ∧
    ∃ s, processAll (fun _ => 0) (init .eurusd 0)
        [.newOrder (Sample.halfBuy 1 "B1" "A"), .newOrder (Sample.halfBuy 2 "B2" "B")] = some s ∧
      s.orderBook.bidMap = [(.finite 10, [1, 2])] ∧ ¬s.TotalsShown := by
  refine ⟨by decide, Sample.fromWire_halfBuys, ?_⟩
  have hrun : (processAll (fun _ => 0) (init .eurusd 0)
      [.newOrder (Sample.halfBuy 1 "B1" "A"), .newOrder (Sample.halfBuy 2 "B2" "B")]).map
        (fun s => (s.orderBook.bidMap, (s.orderBook.publishSnapshot s.orderManager 0).map
          fun snapshot => snapshot.entries.map MarketDataEntry.size)) =
      some ([(.finite 10, [1, 2])], some [0]) := by
    decide +kernel
  obtain ⟨s, hs, heq⟩ := Option.map_eq_some_iff.mp hrun
  obtain ⟨hbids, hsizes⟩ := Prod.mk.inj heq
  refine ⟨s, hs, hbids, fun hshown => ?_⟩
  obtain ⟨snapshot, hsnapshot, _, hne⟩ := hshown 0
  rw [hsnapshot, Option.map_some, Option.some.injEq] at hsizes
  obtain ⟨entry, hentry, hsize⟩ :=
    List.mem_map.mp (hsizes ▸ List.mem_singleton_self (0 : Quantity))
  exact hne entry hentry hsize

end Partition

end BetaTrader
