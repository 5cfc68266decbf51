import BetaTrader.Exchange.LimitProtection
import BetaTrader.Exchange.RiskGate

/-!
# What the self-match check sees

`RiskManager::preCheck` walks along the opposite side with a test of its own for the end
of the walk.  The walk ends where the matching loop ends, unless a NaN is among the
prices: then the check stops at once and the matcher does not stop at all.
-/

namespace BetaTrader

/-- An order of the same sender rests on the other side at a price that the order
crosses; a market order crosses any price. -/
def Order.MeetsItself (manager : OrderManager Double) (book : OrderBook Double)
    (order : Order Double) : Prop :=
  ∃ ptr ∈ Levels.queue (book.sideMap order.side.opposite), ∃ resting,
    manager.orderMap ptr = some resting ∧
      (order.orderType = .market ∨ order.NoWorse resting.price) ∧
        resting.senderCompID = order.senderCompID

/-- The orders of the trade have different senders. -/
def Trade.HasTwoSenders {P : Type} (manager : OrderManager P) (trade : Trade P) : Prop :=
  ∃ buy sell, manager.orderMap trade.buyOrderId = some buy ∧
    manager.orderMap trade.sellOrderId = some sell ∧ buy.senderCompID ≠ sell.senderCompID

namespace Matcher

variable {P : Type} {m : MatchState P} {order : Order P}

/-- What a match adds to the trades. -/
theorem matchOrder_trades [LT P] [DecidableLT P] {book : OrderBook P} (clock : Clock)
    (h : Matchable m.manager order (book.sideMap order.side.opposite)) : ∃ m' book',
    matchOrder clock order.coreOrderId m book = some (m', book') ∧
      m'.trades = m.trades ++ tradesOf clock order
        (fillsOn m.manager order (book.sideMap order.side.opposite)) m.currentId m.ticks :=
  ⟨_, _, matchOrder_eq h, matched_trades⟩

theorem hasTwoSenders_tradeOf_iff {clock : Clock} {manager : OrderManager P} {resting : Order P}
    (horder : manager.orderMap order.coreOrderId = some order)
    (hresting : manager.orderMap resting.coreOrderId = some resting) (amount : ℕ)
    (tradeId : TradeID) (tick : ℕ) :
    (tradeOf clock order resting amount tradeId tick).HasTwoSenders manager ↔
      resting.senderCompID ≠ order.senderCompID := by
  by_cases hside : order.side = .buy
  · simp [Trade.HasTwoSenders, tradeOf, hside, horder, hresting, eq_comm]
  · simp [Trade.HasTwoSenders, tradeOf, hside, horder, hresting]

/-- The trades have two senders if the orders that are reached have another one. -/
theorem hasTwoSenders_tradesOf_iff [LT P] [DecidableLT P] {map : PriceMap P}
    (h : Matchable m.manager order map) (clock : Clock) (currentId : TradeID) (tick : ℕ) :
    (∀ trade ∈ tradesOf clock order (fillsOn m.manager order map) currentId tick,
      trade.HasTwoSenders m.manager) ↔
        ∀ f ∈ fillsOn m.manager order map, f.1.senderCompID ≠ order.senderCompID := by
  constructor
  · intro htwo f hf
    obtain ⟨tradeId, tick', hmem⟩ := tradeOf_mem_tradesOf clock order hf currentId tick
    exact (hasTwoSenders_tradeOf_iff h.incoming_mem (mem_fillsOn h hf).1 _ _ _).mp (htwo _ hmem)
  · intro hsender trade htrade
    obtain ⟨f, hf, tradeId, tick', rfl⟩ := mem_tradesOf htrade
    exact (hasTwoSenders_tradeOf_iff h.incoming_mem (mem_fillsOn h hf).1 _ _ _).mpr (hsender f hf)

end Matcher

/-- An order that is there can be matched with a side in order, where it does not rest
itself. -/
theorem SideInvariant.matchable {P : Type} [LT P] {manager : OrderManager P} {order : Order P}
    {map : PriceMap P} (h : SideInvariant manager order.side.opposite map)
    (horder : manager.orderMap order.coreOrderId = some order) :
    Matcher.Matchable manager order map := by
  refine ⟨horder, h.sound.live, h.nodup, h.noEmpty, fun hmem => ?_⟩
  obtain ⟨resting, hresting, _, hside, _⟩ := h.sound.rests _ hmem
  rw [← Option.some.inj (horder.symm.trans hresting)] at hside
  exact OrderSide.opposite_ne order.side hside.symm

namespace RiskManager

open Matcher

/-- The check refuses an order for its sender exactly when it could meet itself, and what
it lets through is not traded with itself. -/
structure SelfMatchPrevented (clock : Clock) (m : MatchState Double) (book : OrderBook Double)
    (order : Order Double) : Prop where
  refused : preCheck m.manager order book = some false ↔ order.MeetsItself m.manager book
  passed : preCheck m.manager order book = some true → ∃ m' book' trades,
    matchOrder clock order.coreOrderId m book = some (m', book') ∧
      m'.trades = m.trades ++ trades ∧ ∀ trade ∈ trades, trade.HasTwoSenders m.manager

/-- No price that the two walks compare is NaN. -/
def ComparesNumbers (book : OrderBook Double) (order : Order Double) : Prop :=
  order.orderType = .limit →
    order.price ≠ .nan ∧ ∀ l ∈ book.sideMap order.side.opposite, l.1 ≠ .nan

/-- No order of the same sender rests on the other side behind less than the order is
for. -/
def KeepsApart (manager : OrderManager Double) (book : OrderBook Double)
    (order : Order Double) : Prop :=
  ∀ before resting behind,
    restingOrders manager (Levels.queue (book.sideMap order.side.opposite)) =
      before ++ resting :: behind →
    Allocation.total Order.openQuantity before < order.openQuantity →
      resting.senderCompID ≠ order.senderCompID

section Check

variable {clock : Clock} {m : MatchState Double} {manager : OrderManager Double}
  {book : OrderBook Double} {order : Order Double} {map : PriceMap Double}

/-! ## Numbers -/

theorem crosses_iff_noWorse (price : Double) : crosses order price ↔ order.NoWorse price := by
  rw [crosses, Order.NoWorse]
  cases order.side <;> simp

/-- Among numbers the matcher breaks off exactly where the order crosses no more. -/
theorem not_breaks_iff {price : Double}
    (htype : order.orderType = .limit ∨ order.orderType = .market)
    (hnumbers : order.orderType = .limit → order.price ≠ .nan ∧ price ≠ .nan) :
    ¬breaks order price ↔ order.orderType = .market ∨ order.NoWorse price := by
  rcases htype with hlimit | hmarket
  · obtain ⟨hprice, hlevel⟩ := hnumbers hlimit
    have hmarket : order.orderType ≠ .market := by simp [hlimit]
    rw [or_iff_right hmarket]
    constructor
    · exact Partition.noWorse_of_not_breaks hlimit hprice hlevel
    · rintro hnoWorse ⟨_, hbefore⟩
      rw [Order.NoWorse] at hnoWorse
      cases hside : order.side with
      | buy =>
          rw [hside] at hnoWorse hbefore
          exact Double.not_le_of_lt hbefore hnoWorse
      | sell =>
          rw [hside] at hnoWorse hbefore
          exact Double.not_le_of_lt hbefore hnoWorse
  · simp [breaks, hmarket]

theorem stops_iff {price : Double} (htype : order.orderType = .limit ∨ order.orderType = .market)
    (hnumbers : order.orderType = .limit → order.price ≠ .nan ∧ price ≠ .nan) :
    order.orderType = .limit ∧ ¬crosses order price ↔ breaks order price := by
  rw [← not_iff_not, not_breaks_iff htype hnumbers, crosses_iff_noWorse, not_and_not_right]
  rcases htype with hlimit | hmarket
  · simp [hlimit]
  · simp [hmarket]

/-- On a side in order, the orders that the matcher reaches are those at the prices that
the order crosses. -/
theorem meetsItself_iff (htype : order.orderType = .limit ∨ order.orderType = .market)
    (hside : SideInvariant manager order.side.opposite (book.sideMap order.side.opposite))
    (hnumbers : ComparesNumbers book order) : order.MeetsItself manager book ↔
      ∃ resting ∈ crossingOrders manager order (book.sideMap order.side.opposite),
        resting.senderCompID = order.senderCompID := by
  have htrans : ∀ a b c : Double, order.side.opposite.before a b →
      order.side.opposite.before b c → order.side.opposite.before a c := by
    intro a b c hab hbc
    cases hopposite : order.side.opposite with
    | buy =>
        rw [hopposite] at hab hbc
        exact Double.lt_trans hbc hab
    | sell =>
        rw [hopposite] at hab hbc
        exact Double.lt_trans hab hbc
  have hreached (l : Double × PriceLevel) (hl : l ∈ book.sideMap order.side.opposite) :
      ¬breaks order l.1 ↔ order.orderType = .market ∨ order.NoWorse l.1 :=
    not_breaks_iff htype fun hlimit => ⟨(hnumbers hlimit).1, (hnumbers hlimit).2 l hl⟩
  rw [crossingOrders, crossingLevels_eq_filter_of_trans htrans hside.sorted]
  constructor
  · rintro ⟨ptr, hptr, resting, hresting, hcrosses, hsender⟩
    obtain ⟨l, hl, hmem⟩ := Levels.mem_queue.mp hptr
    rw [hside.priced l hl ptr hmem resting hresting, ← hreached l hl] at hcrosses
    have hlevel : l ∈ (book.sideMap order.side.opposite).filter
        fun l => !decide (breaks order l.1) :=
      List.mem_filter.mpr ⟨hl, by simpa using hcrosses⟩
    exact ⟨resting, List.mem_filterMap.mpr ⟨ptr, Levels.mem_queue.mpr ⟨l, hlevel, hmem⟩,
      hresting⟩, hsender⟩
  · rintro ⟨resting, hmem, hsender⟩
    obtain ⟨ptr, hptr, hresting⟩ := List.mem_filterMap.mp hmem
    obtain ⟨l, hl, hptr⟩ := Levels.mem_queue.mp hptr
    obtain ⟨hl, hbreaks⟩ := List.mem_filter.mp hl
    have hcrosses := (hreached l hl).mp (by simpa using hbreaks)
    rw [← hside.priced l hl ptr hptr resting hresting] at hcrosses
    exact ⟨ptr, Levels.mem_queue.mpr ⟨l, hl, hptr⟩, resting, hresting, hcrosses, hsender⟩

/-- Among numbers the check does what it is for. -/
theorem prevented_of_numbers (htype : order.orderType = .limit ∨ order.orderType = .market)
    (hvalid : ¬hasInvalidQuantityOrPrice order) (hband : ¬deviatesTooMuch order book)
    (hside : SideInvariant m.manager order.side.opposite (book.sideMap order.side.opposite))
    (hmatchable : Matchable m.manager order (book.sideMap order.side.opposite))
    (hnumbers : ComparesNumbers book order) : SelfMatchPrevented clock m book order := by
  have hstops : ∀ l ∈ book.sideMap order.side.opposite,
      order.orderType = .limit ∧ ¬crosses order l.1 ↔ breaks order l.1 := fun l hl =>
    stops_iff htype fun hlimit => ⟨(hnumbers hlimit).1, (hnumbers hlimit).2 l hl⟩
  obtain ⟨found, hfound, hiff⟩ := checkForSelfMatch_of_stops hmatchable.live hstops
  have hcheck : preCheck m.manager order book = some !found := by
    rw [preCheck, if_neg hvalid, if_neg hband, hfound, Option.map_some]
  refine ⟨?_, fun hpassed => ?_⟩
  · rw [hcheck, meetsItself_iff htype hside hnumbers, ← hiff]
    cases found <;> simp
  · obtain ⟨m', book', hmatch, htrades⟩ := matchOrder_trades clock hmatchable
    refine ⟨m', book', _, hmatch, htrades, ?_⟩
    rw [hasTwoSenders_tradesOf_iff hmatchable]
    intro f hf hsender
    have hfalse : found = false := by simpa [hcheck] using hpassed
    rw [hfalse] at hiff
    exact Bool.false_ne_true (hiff.mpr ⟨f.1, Allocation.mem_queue_of_mem_fills hf, hsender⟩)

/-! ## NaN -/

/-- A level at NaN stands alone on its side. -/
theorem eq_singleton_of_nan {side : OrderSide} (hsorted : Levels.Sorted side.before map)
    {l : Double × PriceLevel} (hl : l ∈ map) (hnan : l.1 = .nan) : map = [l] := by
  obtain ⟨before, behind, rfl⟩ := List.append_of_mem hl
  have hno (price : Double) : ¬side.before l.1 price ∧ ¬side.before price l.1 := by
    rw [hnan]
    cases side with
    | buy => exact ⟨Double.not_lt_nan price, Double.not_nan_lt price⟩
    | sell => exact ⟨Double.not_nan_lt price, Double.not_lt_nan price⟩
  obtain ⟨_, hbehind, hbefore⟩ := List.pairwise_append.mp hsorted
  have hnil : before = [] := List.eq_nil_iff_forall_not_mem.mpr fun l' hl' =>
    (hno l'.1).2 (hbefore l' hl' l List.mem_cons_self)
  have hnil' : behind = [] := List.eq_nil_iff_forall_not_mem.mpr fun l' hl' =>
    (hno l'.1).1 (List.rel_of_pairwise_cons hbehind hl')
  rw [hnil, hnil', List.nil_append]

/-- Where one of the prices is NaN, the order crosses no level and the matcher breaks off
at none. -/
theorem walks_of_nan (hsorted : Levels.Sorted order.side.opposite.before map)
    (hnan : order.price = .nan ∨ ∃ l ∈ map, l.1 = .nan) {l : Double × PriceLevel}
    (hl : l ∈ map) : ¬order.NoWorse l.1 ∧ ¬breaks order l.1 := by
  have hprices : order.price = .nan ∨ l.1 = .nan := by
    refine hnan.imp_right ?_
    rintro ⟨l', hl', hlevel⟩
    rw [eq_singleton_of_nan hsorted hl' hlevel, List.mem_singleton] at hl
    rw [hl, hlevel]
  rw [Order.NoWorse, breaks, not_and_or]
  rcases hprices with hprice | hlevel
  · rw [hprice]
    cases order.side with
    | buy => exact ⟨Double.not_le_nan l.1, Or.inr (Double.not_nan_lt l.1)⟩
    | sell => exact ⟨Double.not_nan_le l.1, Or.inr (Double.not_lt_nan l.1)⟩
  · rw [hlevel]
    cases order.side with
    | buy => exact ⟨Double.not_nan_le _, Or.inr (Double.not_lt_nan _)⟩
    | sell => exact ⟨Double.not_le_nan _, Or.inr (Double.not_nan_lt _)⟩

theorem checkForSelfMatch_of_nan (hlimit : order.orderType = .limit)
    (h : ∀ l ∈ map, ¬order.NoWorse l.1) : checkForSelfMatch manager order map = some false := by
  cases map with
  | nil => rfl
  | cons l map =>
      have hnot : ¬crosses order l.1 := mt (crosses_iff_noWorse l.1).mp (h l List.mem_cons_self)
      rw [checkForSelfMatch, if_pos ⟨hlimit, hnot⟩]
      rfl

/-- The matcher trades along the whole side. -/
theorem fillsOn_of_nan (h : ∀ l ∈ map, ¬breaks order l.1) : fillsOn manager order map =
    Allocation.fills Order.openQuantity order.openQuantity
      (restingOrders manager (Levels.queue map)) := by
  have hall : crossingLevels order map = map :=
    List.takeWhile_eq_self_iff.mpr fun l hl => by simpa using h l hl
  rw [fillsOn, crossingOrders, hall]

/-- With a NaN nothing is refused, and senders are kept apart only by chance. -/
theorem prevented_iff_of_nan (hlimit : order.orderType = .limit)
    (hvalid : ¬hasInvalidQuantityOrPrice order) (hband : ¬deviatesTooMuch order book)
    (hside : SideInvariant m.manager order.side.opposite (book.sideMap order.side.opposite))
    (hmatchable : Matchable m.manager order (book.sideMap order.side.opposite))
    (hnan : order.price = .nan ∨ ∃ l ∈ book.sideMap order.side.opposite, l.1 = .nan) :
    SelfMatchPrevented clock m book order ↔ KeepsApart m.manager book order := by
  have hwalks (l : Double × PriceLevel) (hl : l ∈ book.sideMap order.side.opposite) :
      ¬order.NoWorse l.1 ∧ ¬breaks order l.1 := walks_of_nan hside.sorted hnan hl
  have hcheck : preCheck m.manager order book = some true := by
    rw [preCheck, if_neg hvalid, if_neg hband,
      checkForSelfMatch_of_nan hlimit fun l hl => (hwalks l hl).1, Option.map_some, Bool.not_false]
  have hmeets : ¬order.MeetsItself m.manager book := by
    rintro ⟨ptr, hptr, resting, hresting, hcrosses, _⟩
    obtain ⟨l, hl, hptr⟩ := Levels.mem_queue.mp hptr
    rw [hside.priced l hl ptr hptr resting hresting, hlimit] at hcrosses
    rcases hcrosses with hmarket | hnoWorse
    · cases hmarket
    · exact (hwalks l hl).1 hnoWorse
  have hreached : (∀ f ∈ fillsOn m.manager order (book.sideMap order.side.opposite),
      f.1.senderCompID ≠ order.senderCompID) ↔ KeepsApart m.manager book order := by
    rw [fillsOn_of_nan fun l hl => (hwalks l hl).2]
    constructor
    · intro hsender before resting behind heq hlt
      obtain ⟨f, hf, rfl⟩ := List.mem_map.mp
        (Allocation.mem_map_fst_fills_iff.mpr ⟨before, behind, heq, hlt⟩)
      exact hsender f hf
    · intro hapart f hf
      obtain ⟨before, behind, heq, hlt⟩ :=
        Allocation.mem_map_fst_fills_iff.mp (List.mem_map_of_mem hf)
      exact hapart before f.1 behind heq hlt
  obtain ⟨m', book', hmatch, htrades⟩ := matchOrder_trades clock hmatchable
  rw [← hreached, ← hasTwoSenders_tradesOf_iff hmatchable clock m.currentId m.ticks]
  constructor
  · intro hprevented
    obtain ⟨m'', book'', trades, hmatch', htrades', htwo⟩ := hprevented.passed hcheck
    obtain ⟨rfl, rfl⟩ := Prod.mk.inj (Option.some.inj (hmatch.symm.trans hmatch'))
    obtain rfl := List.append_cancel_left (htrades.symm.trans htrades')
    exact htwo
  · exact fun htwo => ⟨by simp [hcheck, hmeets], fun _ => ⟨m', book', _, hmatch, htrades, htwo⟩⟩

/-- The check sees what the matcher can reach exactly where it compares numbers, or where
the order would not get as far as an order of its sender anyway. -/
theorem self_match_prevented_iff (htype : order.orderType = .limit ∨ order.orderType = .market)
    (hvalid : ¬hasInvalidQuantityOrPrice order) (hband : ¬deviatesTooMuch order book)
    (hside : SideInvariant m.manager order.side.opposite (book.sideMap order.side.opposite))
    (horder : m.manager.orderMap order.coreOrderId = some order) :
    SelfMatchPrevented clock m book order ↔
      ComparesNumbers book order ∨ KeepsApart m.manager book order := by
  have hmatchable := hside.matchable horder
  by_cases hnumbers : ComparesNumbers book order
  · exact iff_of_true (prevented_of_numbers htype hvalid hband hside hmatchable hnumbers)
      (Or.inl hnumbers)
  · have hfails := hnumbers
    rw [ComparesNumbers, Classical.not_imp, not_and_or] at hfails
    obtain ⟨hlimit, hnan⟩ := hfails
    rw [or_iff_right hnumbers]
    apply prevented_iff_of_nan hlimit hvalid hband hside hmatchable
    simpa using hnan

end Check

/-! ## A buy at NaN -/

namespace Sample

/-- A sell of `S1` at 10, which rests. -/
def sell : Order Double :=
  .create "A" 1 .eurusd "1" "S1" .sell .limit .day 5 (.finite 10) 0

def buy (sender : String) (price : Double) : Order Double :=
  .create "B" 2 .eurusd "2" sender .buy .limit .day 3 price 0

def book : OrderBook Double := (OrderBook.empty .eurusd).push sell

def state (order : Order Double) : MatchState Double where
  manager := (OrderManager.empty.write 1 sell).write 2 order
  currentId := 0
  ticks := 0
  trades := []

theorem sideInvariant (order : Order Double) :
    SideInvariant (state order).manager .sell book.askMap where
  sorted := List.pairwise_singleton _ _
  noEmpty := by
    intro l hl
    rw [List.mem_singleton.mp hl]
    exact List.cons_ne_nil 1 []
  rests := by
    intro l hl ptr hptr
    obtain rfl := List.mem_singleton.mp hl
    obtain rfl := List.mem_singleton.mp hptr
    exact ⟨sell, rfl, rfl, rfl, rfl, by decide⟩
  nodup := List.nodup_singleton 1

end Sample

theorem self_match_prevented_iff_sample :
    SelfMatchPrevented (fun _ => 0) (Sample.state (Sample.buy "B1" (.finite 10))) Sample.book
        (Sample.buy "B1" (.finite 10)) ↔
      ComparesNumbers Sample.book (Sample.buy "B1" (.finite 10)) ∨
        KeepsApart (Sample.state (Sample.buy "B1" (.finite 10))).manager Sample.book
          (Sample.buy "B1" (.finite 10)) :=
  self_match_prevented_iff (Or.inl rfl) (by decide +kernel) (by decide +kernel)
    (Sample.sideInvariant _) rfl

/-- A buy at NaN is not refused, and it takes the sell of its own sender. -/
theorem nan_meets_itself : ¬∀ (clock : Clock) (m : MatchState Double) (book : OrderBook Double)
    (order : Order Double), (order.orderType = .limit ∨ order.orderType = .market) →
      ¬hasInvalidQuantityOrPrice order → ¬deviatesTooMuch order book →
      SideInvariant m.manager order.side.opposite (book.sideMap order.side.opposite) →
      m.manager.orderMap order.coreOrderId = some order →
        SelfMatchPrevented clock m book order := by
  intro h
  have hprevented := h (fun _ => 0) (Sample.state (Sample.buy "S1" .nan)) Sample.book
    (Sample.buy "S1" .nan) (Or.inl rfl) (by decide +kernel) (by decide +kernel)
    (Sample.sideInvariant _) rfl
  obtain ⟨m', book', trades, hmatch, htrades, htwo⟩ := hprevented.passed (by decide +kernel)
  have hrun : (matchOrder (fun _ => 0) 2 (Sample.state (Sample.buy "S1" .nan)) Sample.book).map
      (fun result => result.1.trades.map fun trade => (trade.buyOrderId, trade.sellOrderId)) =
        some [(2, 1)] := by
    decide +kernel
  rw [show matchOrder (fun _ => 0) 2 (Sample.state (Sample.buy "S1" .nan)) Sample.book =
    some (m', book') from hmatch, Option.map_some, htrades, Option.some.injEq] at hrun
  obtain ⟨trade, htrade, hids⟩ := List.map_eq_singleton_iff.mp hrun
  obtain ⟨hbuyId, hsellId⟩ := Prod.mk.inj hids
  have hmem : trade ∈ trades := by
    have hall : trades = [trade] := htrade
    rw [hall]
    exact List.mem_singleton_self trade
  obtain ⟨buy, sell, hbuy, hsell, hne⟩ := htwo trade hmem
  rw [hbuyId] at hbuy
  rw [hsellId] at hsell
  have hbuyEq : Sample.buy "S1" .nan = buy := Option.some.inj hbuy
  have hsellEq : Sample.sell = sell := Option.some.inj hsell
  rw [← hbuyEq, ← hsellEq] at hne
  exact hne rfl

end RiskManager

end BetaTrader
