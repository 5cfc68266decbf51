import BetaTrader.Client.LiveDepth
import BetaTrader.Lib.OrderedMap

/-!
# The ladder

The display iterates over the two maps of the client's book and shows their first
entries.  Where the maps have the depth of the exchange, these are the best levels of the
exchange, in its order.
-/

namespace BetaTrader

variable {P : Type}

/-! ## The book with its order -/

namespace Client

structure Level (P : Type) where
  price : P
  qty : Quantity
  deriving DecidableEq

/-- `OrderBook::Snapshot`. -/
structure UISnapshot (P : Type) where
  symbol : Message
  bids : List (Level P)
  asks : List (Level P)
  spread : P
  midPrice : P
  deriving DecidableEq

/-- The bids are ordered by `std::greater`, the asks by `std::less`. -/
structure OrderedBook (P : Type) [LinearOrder P] where
  mSymbol : Message
  mBids : Std.ExtTreeMap P Quantity fun a b => compare b a
  mAsks : Std.ExtTreeMap P Quantity compare

namespace OrderedBook

section Map

variable {cmp : P → P → Ordering} [Std.TransCmp cmp] (map : Std.ExtTreeMap P Quantity cmp)

def updateMap (price : P) (qty : Quantity) (action : MDUpdateAction) :
    Std.ExtTreeMap P Quantity cmp :=
  let map := match action with
    | .new | .change => map.insert price qty
    | .delete => map.erase price
  if action ≠ .delete ∧ qty = 0 then map.erase price else map

/-- The loop over a map in `getUISnapshot`. -/
def levels (maxDepth : ℕ) : List (Level P) :=
  (map.toList.take maxDepth).map fun entry => ⟨entry.1, entry.2⟩

end Map

variable [LinearOrder P]

def empty (symbol : Message) : OrderedBook P := ⟨symbol, ∅, ∅⟩

def updateLevel (book : OrderedBook P) (type : MDEntryType) (price : P) (qty : Quantity)
    (action : MDUpdateAction) : OrderedBook P :=
  if type = .bid then { book with mBids := updateMap book.mBids price qty action }
  else { book with mAsks := updateMap book.mAsks price qty action }

def handleIncremental (book : OrderedBook P) (refresh : MarketDataIncrementalRefresh P) :
    OrderedBook P :=
  refresh.entries.foldl
    (fun book entry => book.updateLevel entry.entryType entry.price entry.size entry.updateAction)
    book

/-- The body of the loop of `handleSnapshot`. -/
def setLevel (book : OrderedBook P) (entry : MarketDataEntry P) : OrderedBook P :=
  match entry.entryType with
  | .bid => { book with mBids := book.mBids.insert entry.price entry.size }
  | .offer => { book with mAsks := book.mAsks.insert entry.price entry.size }
  | .trade => book

def handleSnapshot (book : OrderedBook P) (snapshot : MarketDataSnapshotFullRefresh P) :
    OrderedBook P :=
  snapshot.entries.foldl setLevel (empty book.mSymbol)

def getUISnapshot [Zero P] [Add P] [Sub P] [Div P] [OfNat P 2] (book : OrderedBook P)
    (maxDepth : ℕ) : UISnapshot P :=
  let bids := levels book.mBids maxDepth
  let asks := levels book.mAsks maxDepth
  match bids, asks with
  | bid :: _, ask :: _ =>
      ⟨book.mSymbol, bids, asks, ask.price - bid.price, (ask.price + bid.price) / 2⟩
  | _, _ => ⟨book.mSymbol, bids, asks, 0, 0⟩

/-- The callback drops what is about another symbol than the selected one. -/
def told (selected : Message) (book : OrderedBook P) : MarketDataMessage P → OrderedBook P
  | .snapshot snapshot =>
      if snapshot.symbol.name ≠ selected then book else book.handleSnapshot snapshot
  | .refresh refresh =>
      if refresh.symbol.name ≠ selected then book else book.handleIncremental refresh

/-! ## Its maps -/

/-- The functions that the maps represent. -/
def maps (book : OrderedBook P) : OrderBook P := ⟨fun price => book.mBids[price]?,
  fun price => book.mAsks[price]?⟩

theorem maps_empty (symbol : Message) : (empty symbol : OrderedBook P).maps = .empty := by
  simp [maps, empty, OrderBook.empty]

section Map

variable {cmp : P → P → Ordering} [Std.TransCmp cmp] [Std.LawfulEqCmp cmp]
  (map : Std.ExtTreeMap P Quantity cmp)

theorem getElem?_insert (price : P) (qty : Quantity) :
    (fun price' => (map.insert price qty)[price']?) =
      Function.update (fun price' => map[price']?) price (some qty) := by
  funext price'
  rw [Std.ExtTreeMap.getElem?_insert, Function.update_apply]
  simp only [Std.LawfulEqCmp.compare_eq_iff_eq, @eq_comm _ price']

theorem getElem?_erase (price : P) : (fun price' => (map.erase price)[price']?) =
    Function.update (fun price' => map[price']?) price none := by
  funext price'
  rw [Std.ExtTreeMap.getElem?_erase, Function.update_apply]
  simp only [Std.LawfulEqCmp.compare_eq_iff_eq, @eq_comm _ price']

theorem getElem?_updateMap (price : P) (qty : Quantity) (action : MDUpdateAction) :
    (fun price' => (updateMap map price qty action)[price']?) =
      OrderBook.updateMap (fun price' => map[price']?) price qty action := by
  unfold updateMap OrderBook.updateMap
  cases action <;> split_ifs <;> simp only [getElem?_insert, getElem?_erase]

end Map

variable (book : OrderedBook P)

theorem maps_updateLevel (type : MDEntryType) (price : P) (qty : Quantity)
    (action : MDUpdateAction) : (book.updateLevel type price qty action).maps =
      book.maps.updateLevel type price qty action := by
  rw [updateLevel, OrderBook.updateLevel]
  split_ifs <;> simp only [maps, getElem?_updateMap]

theorem maps_setLevel (entry : MarketDataEntry P) :
    (book.setLevel entry).maps = book.maps.setLevel entry := by
  rw [setLevel, OrderBook.setLevel]
  cases entry.entryType <;> simp only [maps, getElem?_insert]

theorem maps_handleIncremental (refresh : MarketDataIncrementalRefresh P) :
    (book.handleIncremental refresh).maps = book.maps.handleIncremental refresh := by
  rw [handleIncremental, OrderBook.handleIncremental]
  exact (List.foldl_hom maps fun book entry => (maps_updateLevel book ..).symm).symm

theorem maps_handleSnapshot (snapshot : MarketDataSnapshotFullRefresh P) :
    (book.handleSnapshot snapshot).maps = book.maps.handleSnapshot snapshot := by
  rw [handleSnapshot, OrderBook.handleSnapshot,
    ← List.foldl_hom maps fun book entry => (maps_setLevel book entry).symm, maps_empty]
  rfl

theorem maps_told (selected : Message) (message : MarketDataMessage P) :
    (book.told selected message).maps = book.maps.told selected message := by
  cases message with
  | snapshot snapshot =>
      rw [told, OrderBook.told]
      split_ifs
      · rfl
      · exact maps_handleSnapshot book snapshot
  | refresh refresh =>
      rw [told, OrderBook.told]
      split_ifs
      · rfl
      · exact maps_handleIncremental book refresh

/-- The entries of a map, in the order of the iteration. -/
def entries (book : OrderedBook P) : OrderSide → List (P × ℕ)
  | .buy => book.mBids.toList.map fun entry => (entry.1, entry.2.toNat)
  | .sell => book.mAsks.toList.map fun entry => (entry.1, entry.2.toNat)

end OrderedBook

/-- A row of the table: a level, or the line between asks and bids. -/
inductive LadderRow (P : Type) where
  | ask (level : Level P)
  | line
  | bid (level : Level P)

def LadderRow.price? : LadderRow P → Option P
  | .ask level | .bid level => some level.price
  | .line => none

/-- The rows that `OrderBookPanel::render` draws, from the top. -/
def OrderBookPanel.rows (ss : UISnapshot P) : List (LadderRow P) :=
  ss.asks.reverse.map .ask ++ .line :: ss.bids.map .bid

end Client

/-! ## The best levels of the exchange -/

namespace Partition

open Client

variable [FinitePrice P] {ids : List OrderID} {s : Partition P} {side : OrderSide}

/-- The levels of a side, the best first, with what rests at each. -/
def ladder (s : Partition P) (side : OrderSide) : List (P × ℕ) :=
  (s.orderBook.sideMap side).map fun l =>
    (l.1, Allocation.total Order.openQuantity (s.restingAt side l.1))

theorem mem_ladder (hinv : s.Invariant ids) (price : P) (quantity : ℕ) :
    (price, quantity) ∈ s.ladder side ↔ s.depth side price = some quantity := by
  have hpresent : (∃ l ∈ s.orderBook.sideMap side, l.1 = price) ↔
      s.restingAt side price ≠ [] := by
    constructor
    · rintro ⟨l, hl, rfl⟩
      obtain ⟨ptr, hptr⟩ := List.exists_mem_of_ne_nil _ ((hinv.book side).noEmpty l hl)
      obtain ⟨order, horder, hid, hside, hprice, _⟩ := (hinv.book side).rests l hl ptr hptr
      have hcontains : s.orderBook.Contains ptr :=
        OrderBook.contains_iff.mpr ⟨side, Levels.mem_queue.mpr ⟨l, hl, hptr⟩⟩
      rw [← hid] at hcontains horder
      exact List.ne_nil_of_mem ((mem_restingAt hinv).mpr ⟨hcontains, horder, hside, hprice⟩)
    · intro hne
      obtain ⟨order, horder⟩ := List.exists_mem_of_ne_nil _ hne
      obtain ⟨hmem, hprice⟩ := List.mem_filter.mp horder
      obtain ⟨l, hl, hlprice⟩ := price_of_mem_restingOrders (hinv.book side) hmem
      exact ⟨l, hl, hlprice.trans (of_decide_eq_true hprice)⟩
  rw [ladder, List.mem_map, depth, depthOf]
  constructor
  · rintro ⟨l, hl, heq⟩
    obtain ⟨rfl, rfl⟩ := Prod.mk.inj heq
    rw [if_neg (hpresent.mp ⟨l, hl, rfl⟩)]
  · split_ifs with hnil
    · intro hnone
      cases hnone
    · intro htotal
      obtain ⟨l, hl, rfl⟩ := hpresent.mpr hnil
      exact ⟨l, hl, by rw [Option.some.inj htotal]⟩

theorem sorted_ladder (hinv : s.Invariant ids) (side : OrderSide) :
    (s.ladder side).Pairwise fun a b => side.before a.1 b.1 :=
  List.pairwise_map.mpr (hinv.book side).sorted

/-- The iteration shows the levels of the exchange exactly when the maps have its depth. -/
theorem entries_eq_ladder_iff (hinv : s.Invariant ids) (book : OrderedBook P) :
    (∀ side, book.entries side = s.ladder side) ↔ s.Replicated book.maps := by
  refine forall_congr' fun side => ?_
  have hsorted := sorted_ladder hinv side
  have hlookup : (∀ price quantity, (price, quantity) ∈ s.ladder side ↔
      (book.maps.sideMap side price).map UInt64.toNat = some quantity) ↔
        ∀ price, (book.maps.sideMap side price).map UInt64.toNat = s.depth side price := by
    refine forall_congr' fun price => ?_
    simp only [mem_ladder hinv]
    rw [Option.ext_iff]
    exact forall_congr' fun _ => Iff.comm
  rw [← hlookup]
  cases side with
  | buy =>
      exact OrderedMap.toList_map_eq_iff book.mBids UInt64.toNat
        (hsorted.imp compare_lt_iff_lt.mpr)
  | sell =>
      exact OrderedMap.toList_map_eq_iff book.mAsks UInt64.toNat
        (hsorted.imp compare_lt_iff_lt.mpr)

/-- What the trader is shown of the exchange: the best levels of each side, with the
spread and the middle between the best two. -/
structure Displays [Add P] [OfNat P 2] (s : Partition P) (maxDepth : ℕ) (ui : UISnapshot P) :
    Prop where
  symbol : ui.symbol = s.orderBook.symbol.name
  bids : ui.bids.map (fun level => (level.price, level.qty.toNat)) = (s.ladder .buy).take maxDepth
  asks : ui.asks.map (fun level => (level.price, level.qty.toNat)) = (s.ladder .sell).take maxDepth
  inner : ∀ bid ∈ (s.ladder .buy).head?, ∀ ask ∈ (s.ladder .sell).head?, 0 < maxDepth →
    ui.spread = ask.1 - bid.1 ∧ ui.midPrice = (ask.1 + bid.1) / 2
  falling : ((OrderBookPanel.rows ui).filterMap LadderRow.price?).Pairwise fun a b => b < a

section Displays

variable [Add P] [OfNat P 2] {book : OrderedBook P} {maxDepth : ℕ}

omit [FinitePrice P] [Add P] [OfNat P 2] in
theorem levels_toNat {cmp : P → P → Ordering} [Std.TransCmp cmp]
    (map : Std.ExtTreeMap P Quantity cmp) (maxDepth : ℕ) :
    (OrderedBook.levels map maxDepth).map (fun level => (level.price, level.qty.toNat)) =
      (map.toList.map fun entry => (entry.1, entry.2.toNat)).take maxDepth := by
  rw [OrderedBook.levels, List.map_map, ← List.map_take]
  rfl

theorem bids_getUISnapshot (book : OrderedBook P) (maxDepth : ℕ) :
    (book.getUISnapshot maxDepth).bids = OrderedBook.levels book.mBids maxDepth := by
  rw [OrderedBook.getUISnapshot]
  split <;> rfl

theorem asks_getUISnapshot (book : OrderedBook P) (maxDepth : ℕ) :
    (book.getUISnapshot maxDepth).asks = OrderedBook.levels book.mAsks maxDepth := by
  rw [OrderedBook.getUISnapshot]
  split <;> rfl

theorem symbol_getUISnapshot (book : OrderedBook P) (maxDepth : ℕ) :
    (book.getUISnapshot maxDepth).symbol = book.mSymbol := by
  rw [OrderedBook.getUISnapshot]
  split <;> rfl

omit [Add P] [OfNat P 2] in
/-- The levels, from the highest ask down to the lowest bid. -/
theorem falling_ladder (hinv : s.Invariant ids) (maxDepth : ℕ) :
    ((((s.ladder .sell).take maxDepth).reverse ++ (s.ladder .buy).take maxDepth).map
      Prod.fst).Pairwise fun a b => b < a := by
  rw [List.pairwise_map, List.pairwise_append, List.pairwise_reverse]
  refine ⟨(sorted_ladder hinv .sell).sublist (List.take_sublist _ _),
    (sorted_ladder hinv .buy).sublist (List.take_sublist _ _), fun ask hask bid hbid => ?_⟩
  obtain ⟨l, hl, rfl⟩ := List.mem_map.mp (List.mem_of_mem_take (List.mem_reverse.mp hask))
  obtain ⟨l', hl', rfl⟩ := List.mem_map.mp (List.mem_of_mem_take hbid)
  exact hinv.uncrossed .buy l' hl' l hl

omit [FinitePrice P] [Add P] [OfNat P 2] in
theorem prices_rows (ui : UISnapshot P) :
    (OrderBookPanel.rows ui).filterMap LadderRow.price? =
      ((ui.asks.reverse ++ ui.bids).map Level.price) := by
  rw [OrderBookPanel.rows, List.filterMap_append, List.filterMap_cons_none rfl,
    List.filterMap_map, List.filterMap_map, List.map_append, ← List.filterMap_eq_map]
  rfl

omit [FinitePrice P] [Add P] [OfNat P 2] in
theorem exists_first {levels : List (Level P)} {best : List (P × ℕ)} {first : P × ℕ}
    (h : levels.map (fun level => (level.price, level.qty.toNat)) = best.take maxDepth)
    (hfirst : first ∈ best.head?) (hdepth : 0 < maxDepth) :
    ∃ level rest, levels = level :: rest ∧ level.price = first.1 := by
  obtain ⟨later, rfl⟩ := List.head?_eq_some_iff.mp hfirst
  obtain ⟨n, rfl⟩ := Nat.exists_eq_succ_of_ne_zero hdepth.ne'
  obtain ⟨level, rest, rfl, hlevel, _⟩ := List.map_eq_cons_iff.mp h
  exact ⟨level, rest, rfl, congrArg Prod.fst hlevel⟩

theorem displays_of_entries (hinv : s.Invariant ids)
    (hsymbol : book.mSymbol = s.orderBook.symbol.name)
    (h : ∀ side, book.entries side = s.ladder side) (maxDepth : ℕ) :
    s.Displays maxDepth (book.getUISnapshot maxDepth) := by
  have hbids : (book.getUISnapshot maxDepth).bids.map
      (fun level => (level.price, level.qty.toNat)) = (s.ladder .buy).take maxDepth := by
    rw [bids_getUISnapshot, levels_toNat, ← h .buy]
    rfl
  have hasks : (book.getUISnapshot maxDepth).asks.map
      (fun level => (level.price, level.qty.toNat)) = (s.ladder .sell).take maxDepth := by
    rw [asks_getUISnapshot, levels_toNat, ← h .sell]
    rfl
  refine ⟨(symbol_getUISnapshot book maxDepth).trans hsymbol, hbids, hasks, ?_, ?_⟩
  · intro bid hbid ask hask hdepth
    rw [bids_getUISnapshot] at hbids
    rw [asks_getUISnapshot] at hasks
    obtain ⟨level, _, hlevels, hprice⟩ := exists_first hbids hbid hdepth
    obtain ⟨level', _, hlevels', hprice'⟩ := exists_first hasks hask hdepth
    rw [OrderedBook.getUISnapshot, hlevels, hlevels', ← hprice, ← hprice']
    exact ⟨rfl, rfl⟩
  · have hprices := falling_ladder hinv maxDepth
    rw [← hasks, ← hbids, ← List.map_reverse, ← List.map_append, List.map_map] at hprices
    rw [prices_rows]
    exact hprices

theorem displays_iff (hinv : s.Invariant ids) (hsymbol : book.mSymbol = s.orderBook.symbol.name) :
    (∀ maxDepth, s.Displays maxDepth (book.getUISnapshot maxDepth)) ↔
      s.Replicated book.maps := by
  rw [← entries_eq_ladder_iff hinv]
  refine ⟨fun h side => ?_, displays_of_entries hinv hsymbol⟩
  have hall {xs ys : List (P × ℕ)} (htake : ∀ n, xs.take n = ys.take n) : xs = ys := by
    have hlong := htake (max xs.length ys.length)
    rwa [List.take_of_length_le (le_max_left ..), List.take_of_length_le (le_max_right ..)]
      at hlong
  refine hall fun n => ?_
  cases side with
  | buy =>
      rw [← (h n).bids, bids_getUISnapshot, levels_toNat]
      rfl
  | sell =>
      rw [← (h n).asks, asks_getUISnapshot, levels_toNat]
      rfl

end Displays

end Partition

/-! ## The screen -/

namespace Client

variable [FinitePrice P]

/-- The system of the depth, with the book whose maps are iterated over. -/
structure Screen (P : Type) [FinitePrice P] where
  live : LiveDepth P
  orderBook : OrderedBook P

namespace Screen

section System

variable (clock : Clock) (sessionId : SessionID)

def start (currentId : TradeID) : Screen P := ⟨.start currentId, .empty "EURUSD".toList⟩

/-- The book after a step that leads to `live`. -/
def bookAfter (s : Screen P) (live : LiveDepth P) : LiveEvent P → OrderedBook P
  | .frame _ _ =>
      if live.panel.symbol ≠ s.live.panel.symbol then .empty live.panel.symbol else s.orderBook
  | .messageRead =>
      match s.live.messages with
      | [] => s.orderBook
      | message :: _ => s.orderBook.told s.live.panel.symbol message
  | .command _ _ | .requestRead => s.orderBook

def step (s : Screen P) (event : LiveEvent P) : Option (Screen P) :=
  (s.live.step clock sessionId event).map fun live => ⟨live, s.bookAfter live event⟩

/-- The book once it has been told what is on its way. -/
def caughtUp (s : Screen P) : OrderedBook P :=
  (s.live.messages ++
      s.live.requests.flatMap fun call => (s.live.answer sessionId call).getD []).foldl
    (OrderedBook.told s.live.panel.symbol) s.orderBook

/-- Under `SUBSCRIBED` the ladder shows the best levels of the exchange. -/
def Shows [Add P] [OfNat P 2] (s : Screen P) : Prop :=
  s.live.panel.status = .subscribed → ∀ symbol : Instrument, s.live.panel.symbol = symbol.name →
    ∀ maxDepth, (s.live.partitions symbol).Displays maxDepth
      ((s.caughtUp sessionId).getUISnapshot maxDepth)

end System

variable {clock : Clock} {sessionId : SessionID} {s : Screen P} {history : List (LiveEvent P)}

/-- What every run keeps. -/
structure Sound (history : List (LiveEvent P)) (s : Screen P) : Prop where
  live : s.live.Sound history
  maps : s.orderBook.maps = s.live.orderBook
  symbol : s.orderBook.mSymbol = s.live.panel.symbol

theorem maps_foldl_told (selected : Message) (messages : List (MarketDataMessage P))
    (book : OrderedBook P) : (messages.foldl (OrderedBook.told selected) book).maps =
      messages.foldl (OrderBook.told selected) book.maps :=
  (List.foldl_hom OrderedBook.maps fun book message => (book.maps_told selected message).symm).symm

theorem mSymbol_told (selected : Message) (book : OrderedBook P) (message : MarketDataMessage P) :
    (book.told selected message).mSymbol = book.mSymbol := by
  have hset (book : OrderedBook P) (entry : MarketDataEntry P) :
      (book.setLevel entry).mSymbol = book.mSymbol := by
    rw [OrderedBook.setLevel]
    split <;> rfl
  have hupdate (book : OrderedBook P) (entry : MarketDataIncrementalEntry P) :
      (book.updateLevel entry.entryType entry.price entry.size entry.updateAction).mSymbol =
        book.mSymbol := by
    rw [OrderedBook.updateLevel]
    split_ifs <;> rfl
  have hfold {E : Type} {f : OrderedBook P → E → OrderedBook P}
      (hf : ∀ book e, (f book e).mSymbol = book.mSymbol) (es : List E) (book : OrderedBook P) :
      (es.foldl f book).mSymbol = book.mSymbol := by
    induction es generalizing book with
    | nil => rfl
    | cons e es ih => exact (ih (f book e)).trans (hf book e)
  cases message with
  | snapshot snapshot =>
      rw [OrderedBook.told]
      split_ifs
      · rfl
      · exact hfold hset _ _
  | refresh refresh =>
      rw [OrderedBook.told]
      split_ifs
      · rfl
      · exact hfold hupdate _ _

theorem mSymbol_foldl_told (selected : Message) (messages : List (MarketDataMessage P))
    (book : OrderedBook P) :
    (messages.foldl (OrderedBook.told selected) book).mSymbol = book.mSymbol := by
  induction messages generalizing book with
  | nil => rfl
  | cons message messages ih => exact (ih _).trans (mSymbol_told selected book message)

theorem Sound.step (h : s.Sound history) {event : LiveEvent P} {live : LiveDepth P}
    (hlive : live.Sound (history ++ [event]))
    (hstep : s.live.step clock sessionId event = some live) :
    (⟨live, s.bookAfter live event⟩ : Screen P).Sound (history ++ [event]) := by
  have hkept (hbook : live.orderBook = s.live.orderBook) (hpanel : live.panel = s.live.panel) :
      (⟨live, s.orderBook⟩ : Screen P).Sound (history ++ [event]) :=
    ⟨hlive, h.maps.trans hbook.symm, h.symbol.trans (congrArg _ hpanel.symm)⟩
  cases event with
  | frame chosen pressed =>
      obtain ⟨r, hr⟩ : ∃ r, ConnectionPanel.marketData s.live.panel .active chosen pressed = r :=
        ⟨_, rfl⟩
      rw [LiveDepth.step, hr] at hstep
      obtain rfl := Option.some.inj hstep
      refine ⟨hlive, ?_, ?_⟩
      · simp only [bookAfter]
        split_ifs
        · exact OrderedBook.maps_empty _
        · exact h.maps
      · simp only [bookAfter]
        split_ifs with hchosen
        · rfl
        · exact h.symbol.trans (not_not.mp hchosen).symm
  | command symbol cmd =>
      obtain ⟨partition, _, rfl⟩ := Option.map_eq_some_iff.mp hstep
      exact hkept rfl rfl
  | requestRead =>
      rw [LiveDepth.step] at hstep
      split at hstep
      · obtain rfl := Option.some.inj hstep
        exact hkept rfl rfl
      · obtain ⟨messages, _, rfl⟩ := Option.map_eq_some_iff.mp hstep
        exact hkept rfl rfl
  | messageRead =>
      rw [LiveDepth.step] at hstep
      split at hstep
      next hmessages =>
        obtain rfl := Option.some.inj hstep
        simp only [bookAfter, hmessages]
        exact hkept rfl rfl
      next message rest hmessages =>
        obtain rfl := Option.some.inj hstep
        simp only [bookAfter, hmessages]
        refine ⟨hlive, ?_, ?_⟩
        · exact (s.orderBook.maps_told _ message).trans (by rw [h.maps])
        · exact (mSymbol_told ..).trans h.symbol

theorem Sound.shows_iff [Add P] [OfNat P 2] (h : s.Sound history) :
    s.Shows sessionId ↔ s.live.Live sessionId := by
  refine forall_congr' fun hstatus => forall_congr' fun symbol => forall_congr' fun hselected => ?_
  have hmaps : (s.caughtUp sessionId).maps = s.live.caughtUp sessionId := by
    rw [caughtUp, maps_foldl_told, h.maps]
    rfl
  have hsymbol : (s.caughtUp sessionId).mSymbol =
      (s.live.partitions symbol).orderBook.symbol.name := by
    rw [caughtUp, mSymbol_foldl_told, h.symbol, hselected, h.live.symbol]
  rw [Partition.displays_iff (h.live.invariant symbol) hsymbol, hmaps]

/-- Over any run, the ladder under `SUBSCRIBED` shows the best levels of the exchange as
soon as the client has caught up, in exactly the runs that keep the depth live. -/
theorem ladder_shown_iff [Add P] [OfNat P 2] (clock : Clock) (sessionId : SessionID)
    (currentId : TradeID) (events : List (LiveEvent P))
    (hvalid : ∀ symbol, Partition.Valid (LiveDepth.commandsOf symbol events)) :
    ∃ t, PartialRun.run (step clock sessionId) (start currentId) events = some t ∧
      (PartialRun.Always (step clock sessionId) (Shows sessionId) (start currentId) events ↔
        PartialRun.Follows (step clock sessionId) (fun _ s => s.live.KeepsLive clock) []
          (start currentId) events) := by
  have hstart : (start currentId : Screen P).Sound [] :=
    ⟨LiveDepth.sound_start currentId, OrderedBook.maps_empty _, rfl⟩
  refine PartialRun.always_iff_follows Sound (fun history s event h hok => ?_) hstart
    (fun hshown => by cases hshown) (LiveDepth.follows_of_valid hvalid _)
  obtain ⟨live, hlive, hsound, hiff⟩ := h.live.step hok
  have hsound' := h.step hsound hlive
  refine ⟨_, ?_, hsound', ?_⟩
  · rw [step, hlive]
    rfl
  · rw [h.shows_iff, hsound'.shows_iff]
    exact hiff

theorem ladder_shown_iff_sample :
    ∃ t, PartialRun.run (step (fun _ => 0) 7) (start 0) LiveDepth.Sample.events = some t ∧
      (PartialRun.Always (step (fun _ => 0) 7) (Shows 7) (start 0) LiveDepth.Sample.events ↔
        PartialRun.Follows (step (fun _ => 0) 7) (fun _ s => s.live.KeepsLive fun _ => 0) []
          (start 0) LiveDepth.Sample.events) :=
  ladder_shown_iff (fun _ => 0) 7 0 LiveDepth.Sample.events fun symbol => by
    cases symbol <;> decide

end Screen

end Client

end BetaTrader
