import BetaTrader.Common.Types
import BetaTrader.Lib.Windows
import Mathlib.Logic.Function.Basic
import Mathlib.Order.Interval.Set.UnorderedInterval

/-!
# The candle aggregator

`ohlc::CandleAggregator` keeps for every symbol a current candle of one minute and one
of five.  A method changes the aggregator and has a list of effects: the candles that
go to the repository, and the calls of the callback.
-/

namespace BetaTrader

namespace Client

/-- The arguments of a call of `onTrade`, but for the clock reading. -/
@[ext]
structure TradeTick (P : Type) where
  symbol : List Char
  price : P
  qty : Quantity
  deriving DecidableEq

structure TradeCall (P : Type) extends TradeTick P where
  timestampNs : Int64
  deriving DecidableEq

structure Candle (P : Type) where
  symbol : List Char
  /-- The start of the bucket, in seconds since the epoch. -/
  timestamp : Int64
  «open» : P
  high : P
  low : P
  close : P
  volume : Quantity
  deriving DecidableEq

inductive AggregatorEffect (P : Type) where
  /-- `MarketHistoryRepository::addCandle`. -/
  | addCandle (interval : Int32) (candle : Candle P)
  | callback (interval : Int32) (candle : Candle P)
  deriving DecidableEq

structure CandleAggregator (P : Type) where
  /-- Has a callback been set? -/
  hasCallback : Bool
  /-- The current candle of a symbol and an interval; `none` where the aggregate is not
  active. -/
  mAggregates : List Char → Int32 → Option (Candle P)

variable {P : Type} [LT P] [DecidableLT P]

/-- `std::max`. -/
def stdMax (a b : P) : P := if a < b then b else a

/-- `std::min`. -/
def stdMin (a b : P) : P := if b < a then b else a

/-- The divisions truncate toward zero. -/
def bucketStart (interval : Int32) (timestampNs : Int64) : Int64 :=
  let timestampSec := timestampNs / 1000000000
  timestampSec / (interval * 60).toInt64 * (interval * 60).toInt64

omit [LT P] [DecidableLT P] in
/-- The candle that a trade begins. -/
def newCandle (interval : Int32) (trade : TradeCall P) : Candle P where
  symbol := trade.symbol
  timestamp := bucketStart interval trade.timestampNs
  «open» := trade.price
  high := trade.price
  low := trade.price
  close := trade.price
  volume := trade.qty

def Candle.update (current : Candle P) (trade : TradeCall P) : Candle P :=
  { current with
    high := stdMax current.high trade.price
    low := stdMin current.low trade.price
    close := trade.price
    volume := current.volume + trade.qty }

namespace CandleAggregator

variable (aggregator : CandleAggregator P)

/-- The candle after a trade, and the one that it closes. -/
def nextCandle (agg : Option (Candle P)) (interval : Int32) (trade : TradeCall P) :
    Candle P × Option (Candle P) :=
  match agg with
  | none => (newCandle interval trade, none)
  | some current =>
      if bucketStart interval trade.timestampNs > current.timestamp then
        (newCandle interval trade, some current)
      else (current.update trade, none)

/-- The aggregate is that of the trade's symbol and of the interval. -/
def updateAggregate (interval : Int32) (trade : TradeCall P) :
    CandleAggregator P × List (AggregatorEffect P) :=
  let (current, old) := nextCandle (aggregator.mAggregates trade.symbol interval) interval trade
  ({ aggregator with
      mAggregates := Function.update aggregator.mAggregates trade.symbol
        (Function.update (aggregator.mAggregates trade.symbol) interval (some current)) },
    old.toList.map (.addCandle interval) ++
      if aggregator.hasCallback then [.callback interval current] else [])

def onTrade (trade : TradeCall P) : CandleAggregator P × List (AggregatorEffect P) :=
  let (aggregator, effects) := aggregator.updateAggregate 1 trade
  let (aggregator, effects') := aggregator.updateAggregate 5 trade
  (aggregator, effects ++ effects')

/-- The aggregator and what it has caused so far, after a trade. -/
def feed (s : CandleAggregator P × List (AggregatorEffect P)) (trade : TradeCall P) :
    CandleAggregator P × List (AggregatorEffect P) :=
  let (aggregator, effects) := s.1.onTrade trade
  (aggregator, s.2 ++ effects)

def init (hasCallback : Bool) : CandleAggregator P := ⟨hasCallback, fun _ _ => none⟩

def run (hasCallback : Bool) (trades : List (TradeCall P)) :
    CandleAggregator P × List (AggregatorEffect P) :=
  trades.foldl feed (init hasCallback, [])

end CandleAggregator

/-- The candles of a symbol that have been handed to `addCandle`. -/
def AggregatorEffect.persisted (interval : Int32) (symbol : List Char) :
    List (AggregatorEffect P) → List (Candle P) :=
  List.filterMap fun
    | .addCandle i candle => if i = interval ∧ candle.symbol = symbol then some candle else none
    | .callback _ _ => none

/-- What the callback has been called with. -/
def AggregatorEffect.published : List (AggregatorEffect P) → List (Int32 × Candle P) :=
  List.filterMap fun
    | .addCandle _ _ => none
    | .callback interval candle => some (interval, candle)

namespace AggregatorEffect

omit [LT P] [DecidableLT P]

variable {interval i : Int32} {symbol : List Char} {effects effects' : List (AggregatorEffect P)}

@[simp] theorem persisted_append :
    persisted interval symbol (effects ++ effects') =
      persisted interval symbol effects ++ persisted interval symbol effects' :=
  List.filterMap_append

theorem published_append :
    published (effects ++ effects') = published effects ++ published effects' :=
  List.filterMap_append

@[simp] theorem persisted_callback (b : Bool) (candle : Candle P) :
    persisted interval symbol (if b then [.callback i candle] else []) = [] := by
  cases b <;> rfl

end AggregatorEffect

/-! ## Buckets -/

/-- The seconds of a bucket. -/
def bucketLength (interval : Int32) : ℤ := interval.toInt * 60

/-- What is rounded toward zero lies between zero and what it was. -/
theorem tdiv_mul_mem_uIcc (a : ℤ) {b : ℤ} (hb : 0 < b) : a.tdiv b * b ∈ Set.uIcc 0 a := by
  have hnonneg (a : ℤ) (ha : 0 ≤ a) : 0 ≤ a.tdiv b * b ∧ a.tdiv b * b ≤ a := by
    rw [Int.tdiv_eq_ediv_of_nonneg ha]
    exact ⟨Int.mul_nonneg (Int.ediv_nonneg ha hb.le) hb.le, Int.ediv_mul_le a hb.ne'⟩
  rcases le_total 0 a with ha | ha
  · rw [Set.uIcc_of_le ha]
    exact hnonneg a ha
  · have hneg := hnonneg (-a) (by omega)
    rw [Int.neg_tdiv, Int.neg_mul] at hneg
    rw [Set.uIcc_of_ge ha]
    exact ⟨by omega, by omega⟩

/-- The 64-bit arithmetic is exact. -/
theorem toInt_bucketStart {interval : Int32} (hinterval : interval = 1 ∨ interval = 5)
    (timestampNs : Int64) :
    (bucketStart interval timestampNs).toInt =
      (timestampNs.toInt.tdiv 1000000000).tdiv (bucketLength interval) * bucketLength interval := by
  have hlength : (interval * 60).toInt64.toInt = bucketLength interval := by
    rcases hinterval with rfl | rfl <;> rfl
  have hne : (interval * 60).toInt64 ≠ -1 := by
    rcases hinterval with rfl | rfl <;> decide
  have hsec : (timestampNs / 1000000000).toInt = timestampNs.toInt.tdiv 1000000000 :=
    Int64.toInt_div_of_ne_right _ _ (by decide)
  have hpos : 0 < bucketLength interval := by
    rcases hinterval with rfl | rfl <;> decide
  have hbound := tdiv_mul_mem_uIcc (timestampNs / 1000000000).toInt hpos
  rw [Set.mem_uIcc] at hbound
  have hlt := (timestampNs / 1000000000).toInt_lt
  have hle := (timestampNs / 1000000000).le_toInt
  rw [bucketStart, Int64.toInt_mul, Int64.toInt_div_of_ne_right _ _ hne, hlength,
    Int.bmod_eq_of_le (by omega) (by omega), hsec]

/-! ## What a trade does -/

omit [LT P] [DecidableLT P] in
/-- The symbol of a candle is the one under which it is kept. -/
def CandleAggregator.Labelled (aggregator : CandleAggregator P) : Prop :=
  ∀ symbol interval, ∀ candle ∈ aggregator.mAggregates symbol interval, candle.symbol = symbol

/-- The candles of an interval are windows over the trades. -/
def candleRule (interval : Int32) : Windows.Rule (TradeCall P) ℤ (Candle P) where
  keyOf trade := (bucketStart interval trade.timestampNs).toInt
  key candle := candle.timestamp.toInt
  start := newCandle interval
  add := Candle.update
  key_start _ := rfl
  key_add _ _ := rfl

section Steps

variable {agg : Option (Candle P)} {interval i : Int32} {symbol : List Char} {trade : TradeCall P}
  {aggregator : CandleAggregator P}

theorem nextCandle_eq (agg : Option (Candle P)) (interval : Int32) (trade : TradeCall P) :
    CandleAggregator.nextCandle agg interval trade =
      ((candleRule interval).next agg trade,
        if (candleRule interval).Opens agg trade then agg else none) := by
  cases agg with
  | none => simp [CandleAggregator.nextCandle, candleRule]
  | some current =>
      rw [CandleAggregator.nextCandle]
      by_cases h : bucketStart interval trade.timestampNs > current.timestamp
      · have hopens : (candleRule interval).Opens (some current) trade :=
          Windows.Rule.opens_some_iff.mpr (Int64.lt_iff_toInt_lt.mp h)
        rw [if_pos h, if_pos hopens, Windows.Rule.next_of_opens hopens]
        rfl
      · have hopens : ¬(candleRule interval).Opens (some current) trade :=
          mt (fun hopens => Int64.lt_iff_toInt_lt.mpr (Windows.Rule.opens_some_iff.mp hopens)) h
        rw [if_neg h, if_neg hopens, Windows.Rule.next_of_not_opens hopens]
        rfl

theorem symbol_next (h : ∀ candle ∈ agg, candle.symbol = trade.symbol) :
    ((candleRule interval).next agg trade).symbol = trade.symbol :=
  Windows.Rule.next_induction h rfl fun _ hcandle => hcandle

namespace CandleAggregator

open AggregatorEffect

theorem updateAggregate_mAggregates (i : Int32) (trade : TradeCall P) (symbol : List Char)
    (interval : Int32) :
    (aggregator.updateAggregate i trade).1.mAggregates symbol interval =
      if symbol = trade.symbol ∧ interval = i then
        some ((candleRule i).next (aggregator.mAggregates symbol interval) trade)
      else aggregator.mAggregates symbol interval := by
  rw [updateAggregate, nextCandle_eq]
  by_cases hsymbol : symbol = trade.symbol
  · by_cases hinterval : interval = i
    · simp [hsymbol, hinterval]
    · simp [hsymbol, hinterval]
  · simp [hsymbol]

theorem Labelled.updateAggregate (h : aggregator.Labelled) (i : Int32) (trade : TradeCall P) :
    (aggregator.updateAggregate i trade).1.Labelled := by
  intro symbol interval candle hcandle
  rw [updateAggregate_mAggregates] at hcandle
  split_ifs at hcandle with hsame
  · obtain rfl := Option.some.inj hcandle
    rw [hsame.1]
    exact symbol_next fun current hcurrent => h _ _ current hcurrent
  · exact h symbol interval candle hcandle

theorem persisted_updateAggregate (h : aggregator.Labelled) (i : Int32) (trade : TradeCall P)
    (symbol : List Char) (interval : Int32) :
    AggregatorEffect.persisted interval symbol (aggregator.updateAggregate i trade).2 =
      if symbol = trade.symbol ∧ interval = i ∧
          (candleRule i).Opens (aggregator.mAggregates symbol interval) trade then
        (aggregator.mAggregates symbol interval).toList
      else [] := by
  have hlabel := h trade.symbol i
  rw [updateAggregate, nextCandle_eq]
  dsimp only
  rw [persisted_append, persisted_callback, List.append_nil]
  cases hagg : aggregator.mAggregates trade.symbol i with
  | none =>
      have hnil : (if (candleRule i).Opens none trade then (none : Option (Candle P))
          else none).toList = [] := by
        split_ifs <;> rfl
      rw [hnil]
      split_ifs with hall
      · rw [hall.1, hall.2.1, hagg]
        rfl
      · rfl
  | some current =>
      have hsymbol : current.symbol = trade.symbol := hlabel current hagg
      by_cases hopens : (candleRule i).Opens (some current) trade
      · rw [if_pos hopens]
        by_cases hsame : symbol = trade.symbol ∧ interval = i
        · obtain ⟨rfl, rfl⟩ := hsame
          rw [hagg, if_pos ⟨rfl, rfl, hopens⟩]
          simp [AggregatorEffect.persisted, hsymbol]
        · rw [if_neg fun hall => hsame ⟨hall.1, hall.2.1⟩]
          have hne : ¬(i = interval ∧ current.symbol = symbol) := by
            rintro ⟨rfl, rfl⟩
            exact hsame ⟨hsymbol, rfl⟩
          simp [AggregatorEffect.persisted, hne]
      · rw [if_neg hopens, if_neg]
        · rfl
        · rintro ⟨rfl, rfl, hall⟩
          exact hopens (hagg ▸ hall)

omit [LT P] [DecidableLT P] in
/-- The candles of a symbol: those that have been handed to `addCandle`, and the current
one. -/
def history (s : CandleAggregator P × List (AggregatorEffect P)) (interval : Int32)
    (symbol : List Char) : List (Candle P) × Option (Candle P) :=
  (persisted interval symbol s.2, s.1.mAggregates symbol interval)

omit [LT P] [DecidableLT P] in
/-- The same in one list, in the order in which they were begun. -/
def candles (s : CandleAggregator P × List (AggregatorEffect P)) (interval : Int32)
    (symbol : List Char) : List (Candle P) :=
  (history s interval symbol).1 ++ (history s interval symbol).2.toList

theorem history_updateAggregate (h : aggregator.Labelled) (effects : List (AggregatorEffect P))
    (i : Int32) (trade : TradeCall P) (symbol : List Char) (interval : Int32) :
    history ((aggregator.updateAggregate i trade).1,
        effects ++ (aggregator.updateAggregate i trade).2) interval symbol =
      if symbol = trade.symbol ∧ interval = i then
        (candleRule i).step (history (aggregator, effects) interval symbol) trade
      else history (aggregator, effects) interval symbol := by
  rw [history, persisted_append, persisted_updateAggregate h, updateAggregate_mAggregates]
  by_cases hsame : symbol = trade.symbol ∧ interval = i
  · rw [if_pos hsame, if_pos hsame, Windows.Rule.step, history]
    by_cases hopens : (candleRule i).Opens (aggregator.mAggregates symbol interval) trade
    · rw [if_pos ⟨hsame.1, hsame.2, hopens⟩, if_pos hopens]
    · rw [if_neg fun hall => hopens hall.2.2, if_neg hopens, List.append_nil]
  · rw [if_neg hsame, if_neg hsame, if_neg fun hall => hsame ⟨hall.1, hall.2.1⟩, List.append_nil]
    rfl

variable {s : CandleAggregator P × List (AggregatorEffect P)}

theorem run_concat (hasCallback : Bool) (trades : List (TradeCall P)) (trade : TradeCall P) :
    run hasCallback (trades ++ [trade]) = feed (run hasCallback trades) trade := by
  rw [run, List.foldl_append]
  rfl

theorem hasCallback_run (hasCallback : Bool) (trades : List (TradeCall P)) :
    (run hasCallback trades).1.hasCallback = hasCallback := by
  induction trades using List.reverseRecOn with
  | nil => rfl
  | append_singleton trades trade ih =>
      rw [run_concat]
      exact ih

theorem Labelled.feed (h : s.1.Labelled) (trade : TradeCall P) :
    (CandleAggregator.feed s trade).1.Labelled :=
  (h.updateAggregate 1 trade).updateAggregate 5 trade

/-- A trade goes into the candles of its symbol, in both intervals. -/
theorem history_feed (h : s.1.Labelled) (trade : TradeCall P) (symbol : List Char)
    (hinterval : interval = 1 ∨ interval = 5) :
    history (feed s trade) interval symbol =
      if symbol = trade.symbol then
        (candleRule interval).step (history s interval symbol) trade
      else history s interval symbol := by
  have hone := history_updateAggregate h s.2 1 trade symbol interval
  have hfive := history_updateAggregate (h.updateAggregate 1 trade)
    (s.2 ++ (s.1.updateAggregate 1 trade).2) 5 trade symbol interval
  rw [List.append_assoc] at hfive
  refine hfive.trans ?_
  rw [hone]
  rcases hinterval with rfl | rfl
  · simp
  · simp

/-- The callback is given the new candle of the interval. -/
theorem published_updateAggregate (interval : Int32) (trade : TradeCall P) :
    published (aggregator.updateAggregate interval trade).2 =
      if aggregator.hasCallback then
        [(interval,
          (candleRule interval).next (aggregator.mAggregates trade.symbol interval) trade)]
      else [] := by
  have hnone (old : List (Candle P)) :
      published (old.map (AggregatorEffect.addCandle interval)) = [] := by
    simp [published, List.filterMap_map]
  rw [updateAggregate, nextCandle_eq]
  dsimp only
  rw [published_append, hnone, List.nil_append]
  split_ifs <;> rfl

/-- After a trade the callback has been given the current candle of each interval. -/
theorem published_onTrade (aggregator : CandleAggregator P) (trade : TradeCall P) :
    ∃ minute fiveMinutes,
      (aggregator.onTrade trade).1.mAggregates trade.symbol 1 = some minute ∧
      (aggregator.onTrade trade).1.mAggregates trade.symbol 5 = some fiveMinutes ∧
      published (aggregator.onTrade trade).2 =
        if aggregator.hasCallback then [(1, minute), (5, fiveMinutes)] else [] := by
  have hmap : (aggregator.updateAggregate 1 trade).1.mAggregates trade.symbol 5 =
      aggregator.mAggregates trade.symbol 5 := by
    rw [updateAggregate_mAggregates, if_neg fun h => absurd h.2 (by decide)]
  have hcallback : (aggregator.updateAggregate 1 trade).1.hasCallback = aggregator.hasCallback :=
    rfl
  refine ⟨(candleRule 1).next (aggregator.mAggregates trade.symbol 1) trade,
    (candleRule 5).next (aggregator.mAggregates trade.symbol 5) trade, ?_, ?_, ?_⟩
  · rw [onTrade, updateAggregate_mAggregates, if_neg fun h => absurd h.2 (by decide),
      updateAggregate_mAggregates, if_pos ⟨rfl, rfl⟩]
  · rw [onTrade, updateAggregate_mAggregates, if_pos ⟨rfl, rfl⟩, hmap]
  · rw [onTrade, published_append, published_updateAggregate, published_updateAggregate, hmap,
      hcallback]
    split_ifs <;> rfl

/-- The run of a symbol is that of the windows over its trades. -/
theorem history_run (hasCallback : Bool) (trades : List (TradeCall P)) (symbol : List Char)
    (hinterval : interval = 1 ∨ interval = 5) :
    (run hasCallback trades).1.Labelled ∧
      history (run hasCallback trades) interval symbol =
        (candleRule interval).run (trades.filter fun trade => trade.symbol = symbol) := by
  induction trades using List.reverseRecOn with
  | nil => exact ⟨by simp [Labelled, run, init], rfl⟩
  | append_singleton trades trade ih =>
      obtain ⟨hlabel, hhistory⟩ := ih
      rw [run_concat]
      refine ⟨hlabel.feed trade, ?_⟩
      rw [history_feed hlabel trade symbol hinterval, hhistory, List.filter_append]
      by_cases hsymbol : symbol = trade.symbol
      · have hsingle : [trade].filter (fun t => t.symbol = symbol) = [trade] := by simp [hsymbol]
        rw [if_pos hsymbol, hsingle, Windows.Rule.run_concat]
      · have hnil : [trade].filter (fun t => t.symbol = symbol) = [] := by
          simp [Ne.symm hsymbol]
        rw [if_neg hsymbol, hnil, List.append_nil]

end CandleAggregator

end Steps

end Client

end BetaTrader
