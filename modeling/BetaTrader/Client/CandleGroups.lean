import BetaTrader.Client.CandleAggregator
import Mathlib.Algebra.Order.Ring.Rat
import Mathlib.Order.Bounds.Basic

/-!
# Candles as groups of trades

Trades that come in the order of their times are grouped by their buckets: every bucket
with a trade of a symbol has one candle, and the candle says what all these trades say.
-/

namespace BetaTrader

namespace Client

variable {P : Type}

/-- The time lies in the bucket of the interval that begins at the given second. -/
def InBucket (interval : Int32) (start timestampNs : Int64) : Prop :=
  bucketLength interval ∣ start.toInt ∧ start.toInt * 1000000000 ≤ timestampNs.toInt ∧
    timestampNs.toInt < (start.toInt + bucketLength interval) * 1000000000

instance (interval : Int32) (start timestampNs : Int64) :
    Decidable (InBucket interval start timestampNs) :=
  inferInstanceAs (Decidable (_ ∧ _ ∧ _))

/-- For times since the epoch the bucket of the code is the one that they lie in. -/
theorem inBucket_iff {interval : Int32} (hinterval : interval = 1 ∨ interval = 5)
    {start timestampNs : Int64} (hnonneg : 0 ≤ timestampNs) :
    InBucket interval start timestampNs ↔
      (bucketStart interval timestampNs).toInt = start.toInt := by
  have hns : 0 ≤ timestampNs.toInt := Int64.le_iff_toInt_le.mp hnonneg
  rw [InBucket, toInt_bucketStart hinterval, Int.tdiv_eq_ediv_of_nonneg hns,
    Int.tdiv_eq_ediv_of_nonneg (by omega)]
  rcases hinterval with rfl | rfl
  · have hlength : bucketLength 1 = 60 := rfl
    rw [hlength]
    omega
  · have hlength : bucketLength 5 = 300 := rfl
    rw [hlength]
    omega

variable [LinearOrder P]

/-- The candle says what the trades say: their first, highest, lowest and last price, and
the sum of their quantities modulo `2 ^ 64`. -/
structure Candle.Summarizes (candle : Candle P) (trades : List (TradeCall P)) : Prop where
  «open» : trades.head?.map (·.price) = some candle.open
  close : trades.getLast?.map (·.price) = some candle.close
  high : IsGreatest {price | ∃ trade ∈ trades, trade.price = price} candle.high
  low : IsLeast {price | ∃ trade ∈ trades, trade.price = price} candle.low
  volume : candle.volume.toNat = (trades.map (·.qty.toNat)).sum % 2 ^ 64

/-- The candles are those of the buckets in which the symbol was traded, each of all the
trades in its bucket. -/
structure GroupedByBucket (interval : Int32) (symbol : List Char) (trades : List (TradeCall P))
    (candles : List (Candle P)) : Prop where
  labelled : ∀ candle ∈ candles, candle.symbol = symbol
  increasing : (candles.map (·.timestamp)).Pairwise (· < ·)
  traded : ∀ start, start ∈ candles.map (·.timestamp) ↔
    ∃ trade ∈ trades, trade.symbol = symbol ∧ InBucket interval start trade.timestampNs
  summarizes : ∀ candle ∈ candles, candle.Summarizes (trades.filter fun trade =>
    trade.symbol = symbol ∧ InBucket interval candle.timestamp trade.timestampNs)

/-- The times of the trades of a symbol are not before the epoch, and none is before an
earlier one. -/
def InOrder (trades : List (TradeCall P)) (symbol : List Char) : Prop :=
  let times := (trades.filter fun trade => trade.symbol = symbol).map (·.timestampNs)
  (∀ time ∈ times, 0 ≤ time) ∧ times.Pairwise (· ≤ ·)

instance (trades : List (TradeCall P)) (symbol : List Char) :
    Decidable (InOrder trades symbol) :=
  @instDecidableAnd _ _ (List.decidableBAll _ _) (List.instDecidablePairwise _)

/-! ## The candle of a group -/

theorem stdMax_eq_max (a b : P) : stdMax a b = max a b := by
  rw [stdMax, max_def_lt]

theorem stdMin_eq_min (a b : P) : stdMin a b = min a b := by
  rw [stdMin, min_comm, min_def_lt]

theorem summarizes_newCandle (interval : Int32) (trade : TradeCall P) :
    (newCandle interval trade).Summarizes [trade] where
  «open» := rfl
  close := rfl
  high := by simp [newCandle, IsGreatest, upperBounds]
  low := by simp [newCandle, IsLeast, lowerBounds]
  volume := by simp [newCandle, Nat.mod_eq_of_lt trade.qty.toNat_lt]

theorem Candle.Summarizes.update {candle : Candle P} {trades : List (TradeCall P)}
    (h : candle.Summarizes trades) (trade : TradeCall P) :
    (candle.update trade).Summarizes (trades ++ [trade]) := by
  have hprices : {price | ∃ t ∈ trades ++ [trade], t.price = price} =
      insert trade.price {price | ∃ t ∈ trades, t.price = price} := by
    ext price
    simp [or_and_right, exists_or, or_comm, eq_comm]
  refine { «open» := ?_, close := ?_, high := ?_, low := ?_, volume := ?_ }
  · have hopen := h.open
    cases trades with
    | nil => cases hopen
    | cons t trades => exact hopen
  · simp [Candle.update]
  · rw [hprices, Candle.update, stdMax_eq_max, max_comm]
    exact h.high.insert trade.price
  · rw [hprices, Candle.update, stdMin_eq_min, min_comm]
    exact h.low.insert trade.price
  · have hvolume := h.volume
    simp only [Candle.update, UInt64.toNat_add, List.map_append, List.sum_append, List.map_cons,
      List.map_nil, List.sum_cons, List.sum_nil]
    omega

theorem summarizes_of_summary {interval : Int32} {trades : List (TradeCall P)}
    {candle : Candle P} (h : (candleRule interval).summary trades = some candle) :
    candle.Summarizes trades := by
  induction trades using List.reverseRecOn generalizing candle with
  | nil => cases h
  | append_singleton trades trade ih =>
      rw [Windows.Rule.summary_concat, Option.some.injEq] at h
      cases hsummary : (candleRule interval).summary trades with
      | none =>
          obtain rfl := Windows.Rule.summary_eq_none_iff.mp hsummary
          exact h ▸ summarizes_newCandle interval trade
      | some old =>
          rw [hsummary] at h
          exact h ▸ (ih hsummary).update trade

/-! ## The candles of a run -/

section Run

variable {interval : Int32} {symbol : List Char} {trades : List (TradeCall P)}

/-- The order of times is kept by the buckets. -/
theorem pairwise_bucketStart (hinterval : interval = 1 ∨ interval = 5) {times : List Int64}
    (h : times.Pairwise (· ≤ ·)) :
    (times.map fun time => (bucketStart interval time).toInt).Pairwise (· ≤ ·) := by
  have hpos : 0 < bucketLength interval := by
    rcases hinterval with rfl | rfl <;> decide
  rw [List.pairwise_map]
  refine h.imp fun {a b} hab => ?_
  have hsec : a.toInt.tdiv 1000000000 ≤ b.toInt.tdiv 1000000000 :=
    Int.tdiv_le_tdiv (by decide) (Int64.le_iff_toInt_le.mp hab)
  rw [toInt_bucketStart hinterval, toInt_bucketStart hinterval]
  exact Int.mul_le_mul_of_nonneg_right (Int.tdiv_le_tdiv hpos hsec) hpos.le

namespace CandleAggregator

open AggregatorEffect

omit [LinearOrder P] in
theorem symbol_of_mem_candles {s : CandleAggregator P × List (AggregatorEffect P)}
    (h : s.1.Labelled) {candle : Candle P} (hcandle : candle ∈ candles s interval symbol) :
    candle.symbol = symbol := by
  rcases List.mem_append.mp hcandle with hpersisted | hcurrent
  · obtain ⟨effect, _, heffect⟩ := List.mem_filterMap.mp hpersisted
    cases effect with
    | addCandle i old =>
        obtain ⟨⟨_, hsymbol⟩, hold⟩ := Option.ite_none_right_eq_some.mp heffect
        exact Option.some.inj hold ▸ hsymbol
    | callback i current => cases heffect
  · exact h symbol interval candle (Option.mem_toList.mp hcurrent)

/-- Windows over the trades of a symbol, with the buckets of the code, are groups. -/
theorem groupedByBucket_of_isGroupBy (hinterval : interval = 1 ∨ interval = 5)
    {candles : List (Candle P)} (hlabel : ∀ candle ∈ candles, candle.symbol = symbol)
    (hnonneg : ∀ trade ∈ trades, trade.symbol = symbol → 0 ≤ trade.timestampNs)
    (h : (candleRule interval).IsGroupBy (trades.filter fun trade => trade.symbol = symbol)
      candles) : GroupedByBucket interval symbol trades candles := by
  have hbucket : ∀ trade ∈ trades, trade.symbol = symbol → ∀ start,
      (InBucket interval start trade.timestampNs ↔
        (candleRule interval).keyOf trade = start.toInt) :=
    fun trade htrade hsymbol start => inBucket_iff hinterval (hnonneg trade htrade hsymbol)
  refine { labelled := hlabel, increasing := ?_, traded := ?_, summarizes := ?_ }
  · have hincreasing := h.increasing
    rw [List.pairwise_map] at hincreasing ⊢
    exact hincreasing.imp Int64.lt_iff_toInt_lt.mpr
  · intro start
    have hstart : start ∈ candles.map (·.timestamp) ↔
        start.toInt ∈ candles.map (candleRule interval).key := by
      simp only [List.mem_map, candleRule, Int64.toInt_inj]
    rw [hstart, h.mem_key_iff]
    simp only [List.mem_map, List.mem_filter, decide_eq_true_eq, and_assoc]
    refine exists_congr fun trade => and_congr_right fun htrade => and_congr_right fun hsymbol => ?_
    exact (hbucket trade htrade hsymbol start).symm
  · intro candle hcandle
    have hgroup : (trades.filter fun trade =>
          trade.symbol = symbol ∧ InBucket interval candle.timestamp trade.timestampNs) =
        (trades.filter fun trade => trade.symbol = symbol).filter fun trade =>
          (candleRule interval).keyOf trade = (candleRule interval).key candle := by
      rw [List.filter_filter]
      refine List.filter_congr fun trade htrade => ?_
      rw [Bool.eq_iff_iff, decide_eq_true_iff, Bool.and_eq_true, decide_eq_true_iff,
        decide_eq_true_iff, and_comm]
      exact and_congr_left fun hsymbol => hbucket trade htrade hsymbol candle.timestamp
    rw [hgroup]
    exact summarizes_of_summary (h.summary candle hcandle)

/-- For trades in order, what has been handed to `addCandle` together with the current
candle are the groups of the trades by their buckets, and after every trade the callback
is given the two current candles. -/
theorem candles_grouped (hasCallback : Bool) {trades : List (TradeCall P)}
    (h : ∀ symbol, InOrder trades symbol) :
    (∀ symbol interval, interval = 1 ∨ interval = 5 →
      GroupedByBucket interval symbol trades
        (candles (run hasCallback trades) interval symbol)) ∧
    ∀ before trade after, trades = before ++ trade :: after →
      ∃ minute fiveMinutes,
        (run hasCallback (before ++ [trade])).1.mAggregates trade.symbol 1 = some minute ∧
        (run hasCallback (before ++ [trade])).1.mAggregates trade.symbol 5 = some fiveMinutes ∧
        published ((run hasCallback before).1.onTrade trade).2 =
          if hasCallback then [(1, minute), (5, fiveMinutes)] else [] := by
  constructor
  · intro symbol interval hinterval
    obtain ⟨hlabel, hhistory⟩ := history_run hasCallback trades symbol hinterval
    obtain ⟨hnonneg, hsorted⟩ := h symbol
    rw [candles, hhistory]
    refine groupedByBucket_of_isGroupBy hinterval (fun candle hcandle => ?_)
      (fun trade htrade hsymbol => ?_) (Windows.Rule.isGroupBy_windows ?_)
    · rw [← hhistory] at hcandle
      exact symbol_of_mem_candles hlabel hcandle
    · exact hnonneg _ (List.mem_map_of_mem (List.mem_filter.mpr ⟨htrade, by simpa using hsymbol⟩))
    · have hbuckets := pairwise_bucketStart hinterval hsorted
      rwa [List.map_map] at hbuckets
  · rintro before trade after rfl
    rw [run_concat]
    have hpublished := published_onTrade (run hasCallback before).1 trade
    rwa [hasCallback_run] at hpublished

/-- A trade, `second` seconds after the first bucket. -/
def sampleTrade (symbol : String) (price : ℚ) (qty : Quantity) (second : Int64) : TradeCall ℚ where
  symbol := symbol.toList
  price := price
  qty := qty
  timestampNs := (1700000000 + second) * 1000000000

/-- Two symbols, of which the second is traded at an earlier time than the first, a trade
on the bound of a bucket, and a gap. -/
theorem candles_grouped_sample :
    let trades := [sampleTrade "EURUSD" (11 / 10) 10 0, sampleTrade "EURUSD" (1101 / 1000) 5 30,
      sampleTrade "USDJPY" 150 3 20, sampleTrade "EURUSD" (109 / 100) 7 40,
      sampleTrade "EURUSD" (11 / 10) 2 700]
    (∀ symbol interval, interval = 1 ∨ interval = 5 →
      GroupedByBucket interval symbol trades (candles (run true trades) interval symbol)) ∧
    ∀ before trade after, trades = before ++ trade :: after →
      ∃ minute fiveMinutes,
        (run true (before ++ [trade])).1.mAggregates trade.symbol 1 = some minute ∧
        (run true (before ++ [trade])).1.mAggregates trade.symbol 5 = some fiveMinutes ∧
        published ((run true before).1.onTrade trade).2 =
          if true then [(1, minute), (5, fiveMinutes)] else [] := by
  intro trades
  have hsymbols : ∀ trade ∈ trades, trade.symbol = "EURUSD".toList ∨ trade.symbol = "USDJPY".toList
    := by decide
  have heur : InOrder trades "EURUSD".toList := by decide
  have hjpy : InOrder trades "USDJPY".toList := by decide
  apply candles_grouped true
  intro symbol
  by_cases htraded : ∃ trade ∈ trades, trade.symbol = symbol
  · obtain ⟨trade, htrade, rfl⟩ := htraded
    rcases hsymbols trade htrade with hsymbol | hsymbol
    · rwa [hsymbol]
    · rwa [hsymbol]
  · have hnil : (trades.filter fun trade => trade.symbol = symbol) = [] := by
      rw [List.filter_eq_nil_iff]
      intro trade htrade hsymbol
      exact htraded ⟨trade, htrade, of_decide_eq_true hsymbol⟩
    rw [InOrder, hnil]
    exact ⟨by simp, List.Pairwise.nil⟩

end CandleAggregator

end Run

end Client

end BetaTrader
