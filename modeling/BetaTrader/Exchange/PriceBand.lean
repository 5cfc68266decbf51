import BetaTrader.Exchange.SelfMatch
import Mathlib.Algebra.Order.Field.Basic
import Mathlib.Tactic.NormNum

/-!
# The band around the top of the book

`RiskManager::preCheck` compares the limit of an order with the best price of the
opposite side and nothing else.  Over exact prices that is enough for every fill: the
matcher starts at the best price and breaks off behind the limit.
-/

namespace BetaTrader

namespace RiskManager

open Matcher

/-- The errors `ETRADE10`, `ETRADE11` and `ETRADE12`. -/
inductive PreCheckError where
  | invalidQuantityOrPrice
  | priceDeviates
  | selfMatch
  deriving DecidableEq

section Errors

variable {P : Type} [PriceArith P] (manager : OrderManager P) (order : Order P)
  (orderBook : OrderBook P)

/-- The error that `preCheck` logs before it refuses the order. -/
def preCheckError : Option (Option PreCheckError) :=
  if hasInvalidQuantityOrPrice order then some (some .invalidQuantityOrPrice)
  else if deviatesTooMuch order orderBook then some (some .priceDeviates)
  else (checkForSelfMatch manager order (orderBook.sideMap order.side.opposite)).map fun found =>
    if found then some .selfMatch else none

theorem preCheck_eq_map_error : preCheck manager order orderBook =
    (preCheckError manager order orderBook).map Option.isNone := by
  rw [preCheck, preCheckError]
  split_ifs
  · rfl
  · rfl
  · rw [Option.map_map]
    refine Option.map_congr fun found _ => ?_
    cases found <;> rfl

variable {manager order orderBook}

/-- The second error is that of the deviation, for an order that has passed the first
test. -/
theorem preCheckError_eq_priceDeviates_iff (hvalid : ¬hasInvalidQuantityOrPrice order) :
    preCheckError manager order orderBook = some (some .priceDeviates) ↔
      deviatesTooMuch order orderBook := by
  rw [preCheckError, if_neg hvalid]
  split_ifs with hdeviates
  · exact iff_of_true rfl hdeviates
  · refine iff_of_false ?_ hdeviates
    rw [Option.map_eq_some_iff]
    rintro ⟨found, _, hfound⟩
    cases found <;> cases hfound

end Errors

/-- The price of the first level of the opposite side. -/
def bestOpposite (book : OrderBook ℚ) (order : Order ℚ) : Option ℚ :=
  (book.sideMap order.side.opposite).head?.map Prod.fst

/-- No more than 10% away. -/
def WithinBand (best price : ℚ) : Prop := |price - best| / best ≤ 1 / 10

/-- What is filled is filled within the band, and the orders whose limits are outside it
are those that are refused for that. -/
structure BandHeld (clock : Clock) (m : MatchState ℚ) (book : OrderBook ℚ) (order : Order ℚ) :
    Prop where
  filled : preCheck m.manager order book = some true → ∃ m' book' trades,
    matchOrder clock order.coreOrderId m book = some (m', book') ∧
      m'.trades = m.trades ++ trades ∧ ∀ trade ∈ trades, ∃ best,
        bestOpposite book order = some best ∧ WithinBand best trade.price
  refused : ¬hasInvalidQuantityOrPrice order →
    (preCheckError m.manager order book = some (some .priceDeviates) ↔
      ∃ best, bestOpposite book order = some best ∧ ¬WithinBand best order.price)

variable {clock : Clock} {m : MatchState ℚ} {manager : OrderManager ℚ} {book : OrderBook ℚ}
  {order : Order ℚ}

/-- The test is about the top of the book, if there is one. -/
theorem deviatesTooMuch_iff (hlimit : order.orderType = .limit)
    (hpositive : ∀ l ∈ book.sideMap order.side.opposite, 0 < l.1) :
    deviatesTooMuch order book ↔
      ∃ best, bestOpposite book order = some best ∧ ¬WithinBand best order.price := by
  rw [deviatesTooMuch, and_iff_right hlimit, topOfBookPrice, bestOpposite]
  cases hmap : book.sideMap order.side.opposite with
  | nil => simp
  | cons l map =>
      have hbest : 0 < l.1 := hpositive l (by rw [hmap]; exact List.mem_cons_self)
      have hmax : (PriceArith.maxPriceDeviation : ℚ) = 1 / 10 := rfl
      have habs : PriceArith.abs (order.price - l.1) = |order.price - l.1| := rfl
      simp only [List.head?_cons, Option.map_some, Option.some.injEq, exists_eq_left', hbest,
        true_and, WithinBand, not_le, hmax, habs]

/-- A price between the best one and one in the band is in the band. -/
theorem WithinBand.of_between {best price limit : ℚ} (hbest : 0 < best)
    (hlimit : WithinBand best limit)
    (h : (best ≤ price ∧ price ≤ limit) ∨ (limit ≤ price ∧ price ≤ best)) :
    WithinBand best price := by
  have hle : |price - best| ≤ |limit - best| := by
    rcases h with ⟨hlow, hhigh⟩ | ⟨hlow, hhigh⟩
    · rw [abs_of_nonneg (sub_nonneg.mpr hlow), abs_of_nonneg (sub_nonneg.mpr (hlow.trans hhigh))]
      exact sub_le_sub_right hhigh best
    · rw [abs_of_nonpos (sub_nonpos.mpr hhigh), abs_of_nonpos (sub_nonpos.mpr (hlow.trans hhigh)),
        neg_le_neg_iff]
      exact sub_le_sub_right hlow best
  exact (div_le_div_of_nonneg_right hle hbest.le).trans hlimit

/-- The price of a fill lies between the best price and the limit. -/
theorem fill_between (hlimit : order.orderType = .limit)
    (hside : SideInvariant manager order.side.opposite (book.sideMap order.side.opposite))
    (hmatchable : Matchable manager order (book.sideMap order.side.opposite))
    {f : Order ℚ × ℕ} (hf : f ∈ fillsOn manager order (book.sideMap order.side.opposite)) :
    ∃ best, bestOpposite book order = some best ∧
      ((best ≤ f.1.price ∧ f.1.price ≤ order.price) ∨
        (order.price ≤ f.1.price ∧ f.1.price ≤ best)) := by
  obtain ⟨hget, hqueue, _⟩ := mem_fillsOn hmatchable hf
  obtain ⟨l, hl, hptr⟩ := Levels.mem_queue.mp hqueue
  have hmem := (List.takeWhile_prefix _).subset hl
  have hreached : ¬breaks order l.1 := by simpa using List.mem_takeWhile_imp hl
  rw [hside.priced l hmem _ hptr f.1 hget]
  have hsorted := hside.sorted
  rw [bestOpposite]
  cases hmap : book.sideMap order.side.opposite with
  | nil =>
      rw [hmap] at hmem
      cases hmem
  | cons top map =>
      rw [hmap] at hmem hsorted
      refine ⟨top.1, rfl, ?_⟩
      have hfirst : l = top ∨ order.side.opposite.before top.1 l.1 :=
        (List.mem_cons.mp hmem).imp_right (List.rel_of_pairwise_cons hsorted)
      have hnot : ¬order.side.opposite.before order.price l.1 := fun hbefore =>
        hreached ⟨hlimit, hbefore⟩
      cases hbuy : order.side with
      | buy =>
          rw [hbuy] at hfirst hnot
          refine Or.inl ⟨?_, not_lt.mp hnot⟩
          rcases hfirst with rfl | hlt
          · exact le_rfl
          · exact le_of_lt hlt
      | sell =>
          rw [hbuy] at hfirst hnot
          refine Or.inr ⟨not_lt.mp hnot, ?_⟩
          rcases hfirst with rfl | hlt
          · exact le_rfl
          · exact le_of_lt hlt

/-- The band bounds every fill, however many levels the order takes. -/
theorem band_held (hlimit : order.orderType = .limit)
    (hside : SideInvariant m.manager order.side.opposite (book.sideMap order.side.opposite))
    (hpositive : ∀ l ∈ book.sideMap order.side.opposite, 0 < l.1)
    (horder : m.manager.orderMap order.coreOrderId = some order) :
    BandHeld clock m book order where
  filled := by
    intro hpassed
    have hmatchable := hside.matchable horder
    obtain ⟨_, hband, _⟩ := (preCheck_iff hmatchable.live).mp hpassed
    obtain ⟨m', book', hmatch, htrades⟩ := matchOrder_trades clock hmatchable
    refine ⟨m', book', _, hmatch, htrades, fun trade htrade => ?_⟩
    obtain ⟨f, hf, tradeId, tick, rfl⟩ := mem_tradesOf htrade
    obtain ⟨best, hbest, hbetween⟩ := fill_between hlimit hside hmatchable hf
    have hwithin : WithinBand best order.price := by
      by_contra hnot
      exact hband ((deviatesTooMuch_iff hlimit hpositive).mpr ⟨best, hbest, hnot⟩)
    obtain ⟨l, hl, rfl⟩ := Option.map_eq_some_iff.mp hbest
    have hpos : 0 < l.1 := hpositive l (List.mem_of_head? hl)
    exact ⟨l.1, hbest, hwithin.of_between hpos hbetween⟩
  refused := fun hvalid =>
    (preCheckError_eq_priceDeviates_iff hvalid).trans (deviatesTooMuch_iff hlimit hpositive)

namespace BandSample

/-- Two levels of sells and a buy that takes from both. -/
def sell (id : OrderID) (price : ℚ) : Order ℚ :=
  .create "S" id .eurusd "1" "S1" .sell .limit .day 5 price 0

def buy : Order ℚ := .create "B" 3 .eurusd "2" "B1" .buy .limit .day 8 (21 / 2) 0

def asks : OrderBook ℚ where
  symbol := .eurusd
  bidMap := []
  askMap := [(10, [1]), (21 / 2, [2])]

def state : MatchState ℚ where
  manager := ((OrderManager.empty.write 1 (sell 1 10)).write 2 (sell 2 (21 / 2))).write 3 buy
  currentId := 0
  ticks := 0
  trades := []

theorem sideInvariant : SideInvariant state.manager .sell asks.askMap where
  sorted := by
    refine List.pairwise_pair.mpr ?_
    norm_num [OrderSide.before]
  noEmpty := by simp [asks, Levels.NoEmpty]
  rests := by
    simp only [asks, Levels.All, List.forall_mem_cons, List.not_mem_nil, false_imp_iff,
      implies_true, and_true]
    exact ⟨⟨sell 1 10, rfl, rfl, rfl, rfl, by decide⟩,
      ⟨sell 2 (21 / 2), rfl, rfl, rfl, rfl, by decide⟩⟩
  nodup := by decide

theorem positive : ∀ l ∈ asks.askMap, 0 < l.1 := by
  simp only [asks, List.forall_mem_cons, List.not_mem_nil, false_imp_iff, implies_true, and_true]
  norm_num

end BandSample

theorem band_held_sample :
    BandHeld (fun _ => 0) BandSample.state BandSample.asks BandSample.buy :=
  band_held rfl BandSample.sideInvariant BandSample.positive rfl

end RiskManager

end BetaTrader
