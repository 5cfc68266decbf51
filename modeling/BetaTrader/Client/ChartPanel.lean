import BetaTrader.Client.CandleGroups
import BetaTrader.Client.MarketDataPanel
import BetaTrader.Lib.Latest
import BetaTrader.Lib.Run

/-!
# The chart

The aggregator's callback stores its candles in the chart panel, on the thread of the
trade, while the thread of the user interface selects symbols and draws.  The panel asks
for the symbol before it takes its own lock, so that a symbol may be selected, and the
chart cleared, between the two.
-/

namespace BetaTrader

namespace Client

/-! ## The panel -/

structure ChartPanel (P : Type) where
  /-- The candles of an interval; none where the map has no entry. -/
  mCandlesByInterval : Int32 → List (Candle P)
  mDisplayedSymbol : Message

namespace ChartPanel

variable {P : Type} (panel : ChartPanel P)

/-- The part of `onCandleUpdate` under the lock. -/
def store (interval : Int32) (candle : Candle P) : ChartPanel P :=
  { panel with
    mCandlesByInterval := Function.update panel.mCandlesByInterval interval
      (Latest.keep Candle.timestamp 500 (panel.mCandlesByInterval interval) candle) }

def onCandleUpdate (interval : Int32) (candle : Candle P) (marketData : MarketDataState) :
    ChartPanel P :=
  if candle.symbol ≠ marketData.symbol then panel else panel.store interval candle

def render (marketData : MarketDataState) : ChartPanel P :=
  if marketData.symbol ≠ panel.mDisplayedSymbol then ⟨fun _ => [], marketData.symbol⟩ else panel

end ChartPanel

/-! ## The history it begins with -/

/-- What the generator draws for a candle that opens at a price. -/
structure CandleDraw (P : Type) where
  close : P
  high : P
  low : P
  volume : Quantity

namespace CandleAggregator

variable {P : Type}

/-- The loop of `seedHistoricalData`, with the number of candles still to come. -/
def seedLoop (symbol : Message) (stepSeconds firstBucket : Int64) (draw : ℕ → P → CandleDraw P) :
    ℕ → ℕ → P → List (Candle P)
  | 0, _, _ => []
  | more + 1, index, price =>
      let drawn := draw index price
      { symbol := symbol
        timestamp := firstBucket + Int64.ofNat index * stepSeconds
        «open» := price
        high := drawn.high
        low := drawn.low
        close := drawn.close
        volume := drawn.volume } ::
        seedLoop symbol stepSeconds firstBucket draw more (index + 1) drawn.close

/-- The candles that are handed to the callback. -/
def seedHistoricalData (symbol : Message) (interval : Int32) (candleCount : ℕ) (nowNs : Int64)
    (startingPrice : P) (draw : ℕ → P → CandleDraw P) : List (Candle P) :=
  if candleCount = 0 ∨ interval ≤ 0 then []
  else
    let nowSec := nowNs / 1000000000
    let stepSeconds := interval.toInt64 * 60
    let currentBucket := nowSec / stepSeconds * stepSeconds
    let firstBucket := currentBucket - Int64.ofNat candleCount * stepSeconds
    seedLoop symbol stepSeconds firstBucket draw candleCount 0 startingPrice

end CandleAggregator

/-! ## Trades and drawing -/

/-- The chart of a client with a local exchange. -/
structure Charting (P : Type) where
  marketData : MarketDataState
  panel : ChartPanel P
  aggregator : CandleAggregator P
  /-- What the aggregator has caused so far; no step reads it. -/
  effects : List (AggregatorEffect P)
  /-- A call of the callback that has found its symbol selected and waits for the lock. -/
  underWay : Option (Int32 × Candle P)
  /-- The number of candles of the symbol when the chart was cleared for it; no step reads
  it. -/
  cleared : Option (Int32 → ℕ)

inductive ChartEvent (P : Type) where
  /-- The user selects a symbol. -/
  | choose (symbol : Instrument)
  | render
  /-- `updateAggregate`, up to the comparison of the symbols in the callback. -/
  | trade (interval : Int32) (call : TradeCall P)
  /-- The rest of the callback. -/
  | store

namespace Charting

variable {P : Type}

/-- The candles of a symbol, the current one included. -/
def candles (s : Charting P) (symbol : Message) (interval : Int32) : List (Candle P) :=
  CandleAggregator.candles (s.aggregator, s.effects) interval symbol

/-- The candles that the chart is given at first. -/
def seeds (symbol : Message) (nowNs : Int64) (startingPrice : P)
    (draw : Int32 → ℕ → P → CandleDraw P) (interval : Int32) : List (Candle P) :=
  CandleAggregator.seedHistoricalData symbol interval (if interval = 1 then 60 else 36) nowNs
    startingPrice (draw interval)

/-- `App::initLogic`, with the selected symbol displayed and no candles yet. -/
def initLogic (marketData : MarketDataState) (nowNs : Int64) (startingPrice : P)
    (draw : Int32 → ℕ → P → CandleDraw P) : Charting P where
  marketData := marketData
  panel := [1, 5].foldl (fun panel interval =>
    (seeds marketData.symbol nowNs startingPrice draw interval).foldl
      (fun panel candle => panel.onCandleUpdate interval candle marketData) panel)
    ⟨fun _ => [], marketData.symbol⟩
  aggregator := CandleAggregator.init true
  effects := []
  underWay := none
  cleared := none

variable [LT P] [DecidableLT P]

def step (s : Charting P) : ChartEvent P → Charting P
  | .choose symbol => { s with marketData := s.marketData.selectSymbol symbol.name }
  | .render =>
      { s with
        panel := s.panel.render s.marketData
        cleared := if s.marketData.symbol ≠ s.panel.mDisplayedSymbol then
            some fun interval => (s.candles s.marketData.symbol interval).length
          else s.cleared }
  | .trade interval call =>
      let (aggregator, effects) := s.aggregator.updateAggregate interval call
      { s with
        aggregator := aggregator
        effects := s.effects ++ effects
        underWay := (AggregatorEffect.published effects).find? fun callback =>
          callback.2.symbol = s.marketData.symbol }
  | .store =>
      { s with
        panel := s.underWay.elim s.panel fun callback => s.panel.store callback.1 callback.2
        underWay := none }

/-- An interval shows the last 500 candles: of those that the chart began with and all of
the aggregator's, or, once it has been cleared, of those begun since and the one that was
current then, if a trade has gone into it. -/
def ShowsLast (seeds : Int32 → List (Candle P)) (s : Charting P) (interval : Int32)
    (shown : List (Candle P)) : Prop :=
  match s.cleared with
  | none => shown = (seeds interval ++ s.candles s.marketData.symbol interval).rtake 500
  | some begun => ∃ k, k ≤ begun interval ∧ begun interval ≤ k + 1 ∧
      shown = ((s.candles s.marketData.symbol interval).drop k).rtake 500

/-- The chart that is drawn for a symbol shows its candles, once a callback under way is
through. -/
def Faithful (seeds : Int32 → List (Candle P)) (s : Charting P) : Prop :=
  s.panel.mDisplayedSymbol = s.marketData.symbol → ∀ interval, interval = 1 ∨ interval = 5 →
    ShowsLast seeds s interval ((s.step .store).panel.mCandlesByInterval interval)

/-- A symbol is selected between two drawings, the aggregator works on one trade at a time,
and the clock does not go back behind the start. -/
def Admissible (nowNs : Int64) (s : Charting P) : ChartEvent P → Prop
  | .choose _ => s.panel.mDisplayedSymbol = s.marketData.symbol
  | .render => True
  | .trade interval call =>
      s.underWay = none ∧ (interval = 1 ∨ interval = 5) ∧ nowNs ≤ call.timestampNs
  | .store => True

/-- The chart is not cleared while a candle of another symbol is about to be stored. -/
def ClearsOwn (s : Charting P) : ChartEvent P → Prop
  | .render => s.panel.mDisplayedSymbol ≠ s.marketData.symbol →
      ∀ callback ∈ s.underWay, callback.2.symbol = s.marketData.symbol
  | _ => True

instance (nowNs : Int64) (s : Charting P) : ∀ event, Decidable (Admissible nowNs s event)
  | .choose _ => inferInstanceAs (Decidable (_ = _))
  | .render => inferInstanceAs (Decidable True)
  | .trade _ _ =>
      decidable_of_iff (s.underWay.isNone ∧ _) (and_congr_left' Option.isNone_iff_eq_none)
  | .store => inferInstanceAs (Decidable True)

instance (s : Charting P) : ∀ event, Decidable (ClearsOwn s event)
  | .render => inferInstanceAs (Decidable (_ → _))
  | .choose _ | .trade _ _ | .store => inferInstanceAs (Decidable True)

end Charting

/-! ## The candles of the aggregator -/

namespace CandleAggregator

variable {P : Type} [LT P] [DecidableLT P] {aggregator : CandleAggregator P}
  {effects : List (AggregatorEffect P)} {symbol : Message} {interval : Int32}

/-- There is a current candle as soon as there are candles. -/
def Opened (s : CandleAggregator P × List (AggregatorEffect P)) : Prop :=
  ∀ symbol interval, (history s interval symbol).2 = none → (history s interval symbol).1 = []

theorem Opened.updateAggregate (h : Opened (aggregator, effects)) (hlabel : aggregator.Labelled)
    (i : Int32) (trade : TradeCall P) :
    Opened ((aggregator.updateAggregate i trade).1,
      effects ++ (aggregator.updateAggregate i trade).2) := by
  intro symbol interval hnone
  rw [history_updateAggregate hlabel] at hnone ⊢
  split_ifs at hnone ⊢
  · cases hnone
  · exact h symbol interval hnone

/-- A trade is a new candle of its symbol or revises the last one, and no other candle
changes. -/
theorem candles_updateAggregate (h : Opened (aggregator, effects)) (hlabel : aggregator.Labelled)
    (i : Int32) (trade : TradeCall P) :
    let after := ((aggregator.updateAggregate i trade).1,
      effects ++ (aggregator.updateAggregate i trade).2)
    Latest.Grows Candle.timestamp (candles (aggregator, effects) i trade.symbol)
        ((candleRule i).next (aggregator.mAggregates trade.symbol i) trade)
        (candles after i trade.symbol) ∧
      ∀ symbol interval, ¬(symbol = trade.symbol ∧ interval = i) →
        candles after interval symbol = candles (aggregator, effects) interval symbol := by
  intro after
  refine ⟨?_, fun symbol interval hother => ?_⟩
  · have hafter := history_updateAggregate hlabel effects i trade trade.symbol i
    have hopened := h trade.symbol i
    rw [if_pos ⟨rfl, rfl⟩] at hafter
    rw [candles, candles, hafter, Windows.Rule.step]
    rw [history] at hopened ⊢
    dsimp only at hopened ⊢
    cases hcurrent : aggregator.mAggregates trade.symbol i with
    | none =>
        rw [hopened hcurrent]
        exact Or.inl ⟨rfl, fun y hy => by cases hy⟩
    | some current =>
        split_ifs with hopens
        · refine Or.inl ⟨rfl, fun y hy htimes => ?_⟩
          obtain rfl : current = y := by simpa using hy
          rw [Windows.Rule.next_of_opens hopens] at htimes
          have hlt : current.timestamp.toInt < (bucketStart i trade.timestampNs).toInt :=
            Windows.Rule.opens_some_iff.mp hopens
          exact hlt.ne (congrArg Int64.toInt htimes)
        · rw [Windows.Rule.next_of_not_opens hopens]
          exact Or.inr ⟨_, current, rfl, rfl, rfl⟩
  · rw [candles, candles, history_updateAggregate hlabel, if_neg hother]

/-! ## The times of the first candles -/

omit [LT P] [DecidableLT P] in
theorem seedLoop_timestamps (stepSeconds firstBucket : Int64) (draw : ℕ → P → CandleDraw P)
    (count index : ℕ) (price : P) :
    (seedLoop symbol stepSeconds firstBucket draw count index price).map Candle.timestamp =
      (List.range' index count).map fun k => firstBucket + Int64.ofNat k * stepSeconds := by
  induction count generalizing index price with
  | zero => rfl
  | succ count ih => simp [seedLoop, List.range'_succ, ih]

omit [LT P] [DecidableLT P] in
theorem symbol_of_mem_seedLoop {stepSeconds firstBucket : Int64} {draw : ℕ → P → CandleDraw P}
    {count index : ℕ} {price : P} {candle : Candle P}
    (h : candle ∈ seedLoop symbol stepSeconds firstBucket draw count index price) :
    candle.symbol = symbol := by
  induction count generalizing index price with
  | zero => cases h
  | succ count ih =>
      rcases List.mem_cons.mp h with rfl | h
      · rfl
      · exact ih h

theorem bucketStart_mono (hinterval : interval = 1 ∨ interval = 5) {a b : Int64} (h : a ≤ b) :
    (bucketStart interval a).toInt ≤ (bucketStart interval b).toInt := by
  have hpos : 0 < bucketLength interval := by
    rcases hinterval with rfl | rfl <;> decide
  rw [toInt_bucketStart hinterval, toInt_bucketStart hinterval]
  apply Int.mul_le_mul_of_nonneg_right _ hpos.le
  apply Int.tdiv_le_tdiv hpos
  exact Int.tdiv_le_tdiv (by decide) (Int64.le_iff_toInt_le.mp h)

/-- The candle of an index begins so many buckets before the current one. -/
theorem toInt_seedTime (hinterval : interval = 1 ∨ interval = 5) (nowNs : Int64) {count k : ℕ}
    (hcount : count ≤ 60) (hk : k < count) :
    (bucketStart interval nowNs - Int64.ofNat count * (interval.toInt64 * 60) +
        Int64.ofNat k * (interval.toInt64 * 60)).toInt =
      (bucketStart interval nowNs).toInt - (count - k) * bucketLength interval := by
  have hlength : (interval.toInt64 * 60).toInt = bucketLength interval ∧
      0 < bucketLength interval ∧ bucketLength interval ≤ 300 := by
    rcases hinterval with rfl | rfl <;> decide
  have hbound : -10000000000 ≤ (bucketStart interval nowNs).toInt ∧
      (bucketStart interval nowNs).toInt ≤ 10000000000 := by
    have hmem := tdiv_mul_mem_uIcc (nowNs.toInt.tdiv 1000000000) hlength.2.1
    have hlow : -9223372036 ≤ nowNs.toInt.tdiv 1000000000 :=
      Int.tdiv_le_tdiv (a := -9223372036854775808) (by decide) nowNs.le_toInt
    have hhigh : nowNs.toInt.tdiv 1000000000 ≤ 9223372036 :=
      Int.tdiv_le_tdiv (b := 9223372036854775807) (by decide) (Int.lt_add_one_iff.mp nowNs.toInt_lt)
    rw [toInt_bucketStart hinterval]
    rw [Set.mem_uIcc] at hmem
    omega
  have hproduct (m : ℕ) (hm : m ≤ 60) :
      (Int64.ofNat m * (interval.toInt64 * 60)).toInt = m * bucketLength interval ∧
        0 ≤ m * bucketLength interval ∧ m * bucketLength interval ≤ 18000 := by
    have hle : (m : ℤ) * bucketLength interval ≤ 60 * 300 :=
      Int.mul_le_mul (by omega) hlength.2.2 hlength.2.1.le (by decide)
    have hnonneg : 0 ≤ (m : ℤ) * bucketLength interval :=
      Int.mul_nonneg (Int.natCast_nonneg m) hlength.2.1.le
    rw [Int64.toInt_mul, Int64.toInt_ofNat_of_lt (by omega), hlength.1,
      Int.bmod_eq_of_le (by omega) (by omega)]
    exact ⟨rfl, hnonneg, hle⟩
  obtain ⟨hfirst, _, _⟩ := hproduct count hcount
  obtain ⟨hindex, _, _⟩ := hproduct k (hk.le.trans hcount)
  have hstart : (bucketStart interval nowNs - Int64.ofNat count * (interval.toInt64 * 60)).toInt =
      (bucketStart interval nowNs).toInt - count * bucketLength interval := by
    rw [Int64.toInt_sub, hfirst, Int.bmod_eq_of_le (by omega) (by omega)]
  rw [Int64.toInt_add, hstart, hindex, Int.bmod_eq_of_le (by omega) (by omega), Int.sub_mul]
  omega

end CandleAggregator

namespace Charting

variable {P : Type} {symbol : Message} {nowNs : Int64} {startingPrice : P}
  {draw : Int32 → ℕ → P → CandleDraw P} {interval : Int32} {candle : Candle P}

theorem seeds_eq (hinterval : interval = 1 ∨ interval = 5) :
    ∃ count ≤ 60, seeds symbol nowNs startingPrice draw interval =
      CandleAggregator.seedLoop symbol (interval.toInt64 * 60)
        (bucketStart interval nowNs - Int64.ofNat count * (interval.toInt64 * 60))
        (draw interval) count 0 startingPrice := by
  rcases hinterval with rfl | rfl
  · exact ⟨60, by decide, rfl⟩
  · exact ⟨36, by decide, rfl⟩

theorem symbol_of_mem_seeds (hinterval : interval = 1 ∨ interval = 5)
    (h : candle ∈ seeds symbol nowNs startingPrice draw interval) :
    candle.symbol = symbol := by
  obtain ⟨count, _, hseeds⟩ := seeds_eq hinterval
  rw [hseeds] at h
  exact CandleAggregator.symbol_of_mem_seedLoop h

variable (symbol nowNs startingPrice draw) in
/-- The first candles are those of so many buckets in a row, up to the current one. -/
theorem seeds_timestamps (hinterval : interval = 1 ∨ interval = 5) : ∃ count ≤ 60,
    (seeds symbol nowNs startingPrice draw interval).map (Int64.toInt ∘ Candle.timestamp) =
      (List.range count).map fun k : ℕ =>
        (bucketStart interval nowNs).toInt - (count - k) * bucketLength interval := by
  obtain ⟨count, hcount, hseeds⟩ := seeds_eq hinterval
  refine ⟨count, hcount, ?_⟩
  rw [hseeds, ← List.map_map, CandleAggregator.seedLoop_timestamps, List.map_map,
    ← List.range_eq_range']
  refine List.map_congr_left fun k hk => ?_
  exact CandleAggregator.toInt_seedTime hinterval nowNs hcount (List.mem_range.mp hk)

theorem seeds_before (hinterval : interval = 1 ∨ interval = 5)
    (h : candle ∈ seeds symbol nowNs startingPrice draw interval) :
    candle.timestamp.toInt < (bucketStart interval nowNs).toInt := by
  obtain ⟨count, _, htimes⟩ := seeds_timestamps symbol nowNs startingPrice draw hinterval
  have hmem := List.mem_map_of_mem (f := Int64.toInt ∘ Candle.timestamp) h
  rw [htimes] at hmem
  obtain ⟨k, hk, htime⟩ := List.mem_map.mp hmem
  have hlt : k < count := List.mem_range.mp hk
  have hpos : 0 < ((count : ℤ) - k) * bucketLength interval := by
    apply Int.mul_pos
    · omega
    · rcases hinterval with rfl | rfl <;> decide
  rw [Function.comp_apply] at htime
  omega

variable (symbol nowNs startingPrice draw) in
theorem seeds_isChain (hinterval : interval = 1 ∨ interval = 5) :
    (seeds symbol nowNs startingPrice draw interval).IsChain
      (Candle.timestamp · ≠ Candle.timestamp ·) := by
  obtain ⟨count, _, htimes⟩ := seeds_timestamps symbol nowNs startingPrice draw hinterval
  have hincreasing : ((seeds symbol nowNs startingPrice draw interval).map
      (Int64.toInt ∘ Candle.timestamp)).Pairwise (· < ·) := by
    rw [htimes, List.pairwise_map]
    refine List.pairwise_lt_range.imp fun {k m} hkm => ?_
    apply Int.sub_lt_sub_left
    apply Int.mul_lt_mul_of_pos_right
    · omega
    · rcases hinterval with rfl | rfl <;> decide
  rw [List.pairwise_map] at hincreasing
  refine (hincreasing.imp fun {a b} hlt htime => ?_).isChain
  exact hlt.ne (congrArg Int64.toInt htime)

/-! ## What a step does to the chart -/

section Steps

variable [LT P] [DecidableLT P] {first : Int32 → List (Candle P)} {s t : Charting P}
  {shown : List (Candle P)}

theorem stored_eq (s : Charting P) (interval : Int32) :
    (s.step .store).panel.mCandlesByInterval interval =
      s.underWay.elim (s.panel.mCandlesByInterval interval) fun callback =>
        if interval = callback.1 then
          Latest.keep Candle.timestamp 500 (s.panel.mCandlesByInterval interval) callback.2
        else s.panel.mCandlesByInterval interval := by
  rw [step]
  cases s.underWay with
  | none => rfl
  | some callback =>
      by_cases hinterval : interval = callback.1
      · subst hinterval
        simp [ChartPanel.store]
      · simp [ChartPanel.store, hinterval]

omit [LT P] [DecidableLT P] in
theorem showsLast_of_cleared {begun : Int32 → ℕ} (h : s.cleared = some begun) :
    ShowsLast first s interval shown ↔ ∃ k, k ≤ begun interval ∧ begun interval ≤ k + 1 ∧
      shown = ((s.candles s.marketData.symbol interval).drop k).rtake 500 := by
  rw [ShowsLast, h]

omit [LT P] [DecidableLT P] in
theorem ShowsLast.keep (h : ShowsLast first s interval shown)
    (hgrows : Latest.Grows Candle.timestamp (s.candles s.marketData.symbol interval) candle
      (t.candles t.marketData.symbol interval)) (hcleared : t.cleared = s.cleared)
    (hfirst : s.candles s.marketData.symbol interval = [] →
      ∀ y ∈ (first interval).getLast?, y.timestamp ≠ candle.timestamp)
    (hbegun : ∀ begun, s.cleared = some begun →
      begun interval ≤ (s.candles s.marketData.symbol interval).length) :
    ShowsLast first t interval (Latest.keep Candle.timestamp 500 shown candle) := by
  cases hs : s.cleared with
  | none =>
      rw [ShowsLast, hs] at h
      rw [ShowsLast, hcleared, hs, h]
      exact Latest.keep_rtake (hgrows.append_left hfirst) (Nat.succ_pos _)
  | some begun =>
      obtain ⟨k, hk, hbegun', hshown⟩ := (showsLast_of_cleared hs).mp h
      rw [showsLast_of_cleared (hcleared.trans hs), hshown]
      rcases hgrows.drop (hk.trans (hbegun begun hs)) with hdrop | ⟨hall, hnil, hpos, hone⟩
      · exact ⟨k, hk, hbegun', Latest.keep_rtake hdrop (Nat.succ_pos _)⟩
      · have hlength := hbegun begun hs
        refine ⟨k - 1, by omega, by omega, ?_⟩
        rw [hnil, hone, List.rtake_nil]
        simp [Latest.keep, List.rtake]

omit [LT P] [DecidableLT P] in
theorem ShowsLast.congr (h : ShowsLast first s interval shown)
    (hcandles : t.candles t.marketData.symbol interval = s.candles s.marketData.symbol interval)
    (hcleared : t.cleared = s.cleared) : ShowsLast first t interval shown := by
  rwa [ShowsLast, hcandles, hcleared]

/-- What holds as long as the chart is never cleared at the wrong time. -/
structure Sound (first : Int32 → List (Candle P)) (s : Charting P) : Prop where
  hasCallback : s.aggregator.hasCallback = true
  labelled : s.aggregator.Labelled
  opened : CandleAggregator.Opened (s.aggregator, s.effects)
  current : ∀ callback ∈ s.underWay, (callback.1 = 1 ∨ callback.1 = 5) ∧
    s.aggregator.mAggregates callback.2.symbol callback.1 = some callback.2
  own : s.panel.mDisplayedSymbol = s.marketData.symbol →
    ∀ callback ∈ s.underWay, callback.2.symbol = s.marketData.symbol
  begun : s.panel.mDisplayedSymbol = s.marketData.symbol → ∀ begun, s.cleared = some begun →
    ∀ interval, begun interval ≤ (s.candles s.marketData.symbol interval).length
  faithful : s.Faithful first

theorem Sound.choose (h : s.Sound first) (symbol : Instrument)
    (hframe : s.panel.mDisplayedSymbol = s.marketData.symbol) :
    (s.step (.choose symbol)).Sound first := by
  by_cases hsame : s.marketData.symbol = symbol.name
  · rwa [step, MarketDataState.selectSymbol_name, if_pos hsame]
  · rw [step, MarketDataState.selectSymbol_name, if_neg hsame]
    have hother : s.panel.mDisplayedSymbol ≠ symbol.name := fun heq => hsame (hframe.symm.trans heq)
    exact ⟨h.hasCallback, h.labelled, h.opened, h.current, fun heq => (hother heq).elim,
      fun heq => (hother heq).elim, fun heq => (hother heq).elim⟩

theorem Sound.render (h : s.Sound first) :
    (ClearsOwn s .render → (s.step .render).Sound first) ∧
      ((s.step .render).Faithful first → ClearsOwn s .render) := by
  by_cases hsame : s.panel.mDisplayedSymbol = s.marketData.symbol
  · have hstep : s.step .render = s := by
      simp [step, ChartPanel.render, hsame]
    rw [hstep]
    exact ⟨fun _ => h, fun _ hother => (hother hsame).elim⟩
  · have hstep : s.step .render =
        { s with
          panel := ⟨fun _ => [], s.marketData.symbol⟩
          cleared := some fun interval => (s.candles s.marketData.symbol interval).length } := by
      simp [step, ChartPanel.render, Ne.symm hsame]
    have hstored (interval : Int32) :
        ((s.step .render).step .store).panel.mCandlesByInterval interval =
          s.underWay.elim [] fun callback =>
            if interval = callback.1 then [callback.2] else [] := by
      rw [stored_eq, hstep]
      rfl
    have hcurrent (callback : Int32 × Candle P) (hcallback : callback ∈ s.underWay)
        (hown : callback.2.symbol = s.marketData.symbol) :
        s.candles s.marketData.symbol callback.1 =
          (CandleAggregator.history (s.aggregator, s.effects) callback.1
            s.marketData.symbol).1 ++ [callback.2] := by
      have hsome := (h.current callback hcallback).2
      rw [hown] at hsome
      rw [candles, CandleAggregator.candles, CandleAggregator.history, hsome]
      rfl
    constructor
    · intro hcond
      have hown := hcond hsame
      have hfaithful : (s.step .render).Faithful first := by
        intro _ interval _
        rw [hstored, hstep]
        rw [showsLast_of_cleared rfl]
        cases hunderWay : s.underWay with
        | none => exact ⟨_, le_rfl, Nat.le_succ _, by simp [candles]⟩
        | some callback =>
            by_cases hinterval : interval = callback.1
            · subst hinterval
              have hcandles := hcurrent callback hunderWay (hown callback hunderWay)
              refine ⟨(s.candles s.marketData.symbol callback.1).length - 1, Nat.sub_le _ 1,
                by omega, ?_⟩
              change _ = ((s.candles s.marketData.symbol callback.1).drop _).rtake 500
              rw [hcandles, List.length_append, List.length_singleton, Nat.add_sub_cancel,
                List.drop_left]
              simp [List.rtake]
            · exact ⟨_, le_rfl, Nat.le_succ _, by simp [candles, hinterval]⟩
      rw [hstep] at hfaithful ⊢
      exact ⟨h.hasCallback, h.labelled, h.opened, h.current, fun _ => hown,
        fun _ begun hbegun interval => Option.some.inj hbegun ▸ le_rfl, hfaithful⟩
    · intro hfaithful _ callback hcallback
      have hshows := hfaithful (by rw [hstep]) callback.1 (h.current callback hcallback).1
      rw [hstored, hcallback, hstep, showsLast_of_cleared rfl] at hshows
      obtain ⟨k, _, _, hlast⟩ := hshows
      replace hlast : [callback.2] =
          ((s.candles s.marketData.symbol callback.1).drop k).rtake 500 := by
        simpa [candles] using hlast
      have hmem : callback.2 ∈ s.candles s.marketData.symbol callback.1 := by
        apply List.mem_of_mem_drop (i := k)
        apply Latest.mem_of_mem_rtake (n := 500)
        exact hlast ▸ List.mem_singleton_self _
      exact CandleAggregator.symbol_of_mem_candles h.labelled hmem

theorem Sound.store (h : s.Sound first) : (s.step .store).Sound first := by
  have hdisplayed : (s.step .store).panel.mDisplayedSymbol = s.panel.mDisplayedSymbol := by
    rw [step]
    cases s.underWay <;> rfl
  refine ⟨h.hasCallback, h.labelled, h.opened, fun _ hc => (by cases hc),
    fun _ _ hc => (by cases hc), ?_, ?_⟩
  · rw [hdisplayed]
    exact h.begun
  · intro heq interval hinterval
    rw [stored_eq]
    exact h.faithful (hdisplayed.symm.trans heq) interval hinterval

theorem trade_underWay (h : s.Sound first) (interval : Int32) (call : TradeCall P) :
    (s.step (.trade interval call)).underWay =
      if call.symbol = s.marketData.symbol then
        some (interval, (candleRule interval).next (s.aggregator.mAggregates call.symbol interval)
          call)
      else none := by
  have hsymbol : ((candleRule interval).next (s.aggregator.mAggregates call.symbol interval)
      call).symbol = call.symbol :=
    symbol_next fun candle hcandle => h.labelled _ _ candle hcandle
  rw [step]
  dsimp only
  rw [CandleAggregator.published_updateAggregate, if_pos h.hasCallback, List.find?_singleton,
    hsymbol]
  simp

theorem Sound.trade (h : s.Sound first) (hinterval : interval = 1 ∨ interval = 5)
    {call : TradeCall P} (hidle : s.underWay = none) (htime : nowNs ≤ call.timestampNs)
    (hfirst : ∀ interval, interval = 1 ∨ interval = 5 → ∀ candle ∈ first interval,
      candle.timestamp.toInt < (bucketStart interval nowNs).toInt) :
    (s.step (.trade interval call)).Sound first := by
  have hunderWay := trade_underWay h interval call
  obtain ⟨hgrows, hothers⟩ := CandleAggregator.candles_updateAggregate h.opened h.labelled
    interval call
  have hsymbol : ((candleRule interval).next (s.aggregator.mAggregates call.symbol interval)
      call).symbol = call.symbol :=
    symbol_next fun candle hcandle => h.labelled _ _ candle hcandle
  refine ⟨h.hasCallback, h.labelled.updateAggregate interval call,
    h.opened.updateAggregate h.labelled interval call, ?_, ?_, ?_, ?_⟩
  · intro callback hcallback
    rw [hunderWay] at hcallback
    split_ifs at hcallback
    · obtain rfl := Option.some.inj hcallback
      refine ⟨hinterval, ?_⟩
      change (s.aggregator.updateAggregate interval call).1.mAggregates _ _ = _
      rw [CandleAggregator.updateAggregate_mAggregates, hsymbol, if_pos ⟨rfl, rfl⟩]
    · cases hcallback
  · intro _ callback hcallback
    rw [hunderWay] at hcallback
    split_ifs at hcallback with hselected
    · obtain rfl := Option.some.inj hcallback
      exact hsymbol.trans hselected
    · cases hcallback
  · intro heq begun hbegun interval'
    refine (h.begun heq begun hbegun interval').trans ?_
    by_cases hsame : s.marketData.symbol = call.symbol ∧ interval' = interval
    · obtain ⟨hselected, rfl⟩ := hsame
      have hlength := hgrows.length_le
      rw [← hselected] at hlength
      exact hlength
    · exact (congrArg List.length (hothers _ _ hsame)).ge
  · intro heq interval' hinterval'
    have hshows := h.faithful heq interval' hinterval'
    rw [stored_eq, hidle] at hshows
    rw [stored_eq, hunderWay]
    by_cases hsame : s.marketData.symbol = call.symbol ∧ interval' = interval
    · obtain ⟨hselected, rfl⟩ := hsame
      rw [if_pos hselected.symm]
      dsimp only [Option.elim]
      rw [if_pos rfl]
      refine ShowsLast.keep (t := s.step (.trade interval' call)) hshows ?_ rfl ?_ ?_
      · rw [← hselected] at hgrows ⊢
        exact hgrows
      · intro hnone y hy htimes
        have hopens : s.aggregator.mAggregates call.symbol interval' = none := by
          rw [← hselected]
          exact Option.toList_eq_nil_iff.mp (List.append_eq_nil_iff.mp hnone).2
        rw [hopens, Windows.Rule.next_none] at htimes
        have hbefore := hfirst interval' hinterval' y (List.mem_of_getLast? hy)
        have hafter := CandleAggregator.bucketStart_mono hinterval' htime
        rw [htimes] at hbefore
        exact absurd hafter hbefore.not_ge
      · exact fun begun hbegun => h.begun heq begun hbegun interval'
    · have hstays : ShowsLast first (s.step (.trade interval call)) interval'
          (s.panel.mCandlesByInterval interval') :=
        hshows.congr (hothers _ _ hsame) rfl
      split_ifs with hselected
      · have hinterval'' : interval' ≠ interval := fun heq' => hsame ⟨hselected.symm, heq'⟩
        dsimp only [Option.elim]
        rwa [if_neg hinterval'']
      · exact hstays

end Steps

/-! ## Whole runs -/

theorem foldl_onCandleUpdate {marketData : MarketDataState} {panel : ChartPanel P}
    {candles : List (Candle P)} (h : ∀ candle ∈ candles, candle.symbol = marketData.symbol) :
    candles.foldl (fun panel candle => panel.onCandleUpdate interval candle marketData) panel =
      { panel with
        mCandlesByInterval := Function.update panel.mCandlesByInterval interval
          (candles.foldl (Latest.keep Candle.timestamp 500)
            (panel.mCandlesByInterval interval)) } := by
  induction candles generalizing panel with
  | nil => simp
  | cons candle candles ih =>
      obtain ⟨hsymbol, hrest⟩ := List.forall_mem_cons.mp h
      rw [List.foldl_cons, ih hrest, ChartPanel.onCandleUpdate, if_neg (not_not.mpr hsymbol)]
      simp [ChartPanel.store]

variable [LT P] [DecidableLT P]

omit [LT P] [DecidableLT P] in
theorem initLogic_panel (marketData : MarketDataState) (nowNs : Int64) (startingPrice : P)
    (draw : Int32 → ℕ → P → CandleDraw P) (hinterval : interval = 1 ∨ interval = 5) :
    (initLogic marketData nowNs startingPrice draw).panel.mDisplayedSymbol = marketData.symbol ∧
      (initLogic marketData nowNs startingPrice draw).panel.mCandlesByInterval interval =
        (seeds marketData.symbol nowNs startingPrice draw interval).rtake 500 := by
  have hsymbols (i : Int32) (hi : i = 1 ∨ i = 5) :
      ∀ candle ∈ seeds marketData.symbol nowNs startingPrice draw i,
        candle.symbol = marketData.symbol :=
    fun _ => symbol_of_mem_seeds hi
  have hkept (i : Int32) (hi : i = 1 ∨ i = 5) :
      (seeds marketData.symbol nowNs startingPrice draw i).foldl
          (Latest.keep Candle.timestamp 500) [] =
        (seeds marketData.symbol nowNs startingPrice draw i).rtake 500 :=
    Latest.foldl_keep (Nat.succ_pos _) (seeds_isChain marketData.symbol nowNs startingPrice draw hi)
  rw [initLogic, List.foldl_cons, List.foldl_cons, List.foldl_nil,
    foldl_onCandleUpdate (hsymbols 1 (.inl rfl)), foldl_onCandleUpdate (hsymbols 5 (.inr rfl))]
  refine ⟨rfl, ?_⟩
  rcases hinterval with rfl | rfl
  · dsimp only
    rw [Function.update_of_ne (by decide), Function.update_self, hkept 1 (.inl rfl)]
  · dsimp only
    rw [Function.update_self, Function.update_of_ne (by decide), hkept 5 (.inr rfl)]

theorem sound_initLogic (marketData : MarketDataState) (nowNs : Int64) (startingPrice : P)
    (draw : Int32 → ℕ → P → CandleDraw P) :
    (initLogic marketData nowNs startingPrice draw).Sound
      (seeds marketData.symbol nowNs startingPrice draw) := by
  refine ⟨rfl, fun _ _ _ hc => (by cases hc), fun _ _ _ => rfl, fun _ hc => (by cases hc),
    fun _ _ hc => (by cases hc), fun _ _ hc => (by cases hc), ?_⟩
  intro _ interval hinterval
  rw [stored_eq]
  change ShowsLast _ _ interval
    ((initLogic marketData nowNs startingPrice draw).panel.mCandlesByInterval interval)
  rw [(initLogic_panel marketData nowNs startingPrice draw hinterval).2]
  exact congrArg (List.rtake · 500) (List.append_nil _).symm

/-- Over any run of the two threads, what is drawn for a symbol are the last 500 candles of
the aggregator, with those that the chart began with, in exactly the runs in which the chart
is never cleared while a candle of another symbol is about to be stored. -/
theorem chart_faithful_iff {marketData : MarketDataState} {nowNs : Int64} {startingPrice : P}
    {draw : Int32 → ℕ → P → CandleDraw P} {events : List (ChartEvent P)}
    (hevents : TotalRun.Meets step (Admissible nowNs)
      (initLogic marketData nowNs startingPrice draw) events) :
    TotalRun.Always step (Faithful (seeds marketData.symbol nowNs startingPrice draw))
        (initLogic marketData nowNs startingPrice draw) events ↔
      TotalRun.Meets step ClearsOwn (initLogic marketData nowNs startingPrice draw) events := by
  refine TotalRun.always_iff_meets_of (fun _ h => h.faithful) (fun s event h hadmissible => ?_)
    (sound_initLogic marketData nowNs startingPrice draw) hevents
  cases event with
  | choose symbol => exact ⟨fun _ => h.choose symbol hadmissible, fun _ => trivial⟩
  | render => exact h.render
  | trade interval call =>
      obtain ⟨hidle, hinterval, htime⟩ := hadmissible
      refine ⟨fun _ => ?_, fun _ => trivial⟩
      exact h.trade hinterval hidle htime fun _ hinterval _ hcandle =>
        seeds_before hinterval hcandle
  | store => exact ⟨fun _ => h.store, fun _ => trivial⟩

/-- A trade is stored, the user turns to another symbol, whose trade is stored too; in the
second run the first trade waits while the chart is cleared. -/
theorem chart_faithful_iff_sample :
    let call (symbol : Instrument) : TradeCall ℤ := ⟨⟨symbol.name, 7, 1⟩, 61000000000⟩
    let start := initLogic MarketDataState.start 60000000000 (7 : ℤ) fun _ _ price =>
      ⟨price, price, price, 80⟩
    let first := seeds MarketDataState.start.symbol 60000000000 (7 : ℤ) fun _ _ price =>
      ⟨price, price, price, 80⟩
    TotalRun.Always step (Faithful first) start
        [.trade 1 (call .eurusd), .store, .choose .usdjpy, .trade 5 (call .eurusd), .render,
          .trade 1 (call .usdjpy), .store] ∧
      ¬TotalRun.Always step (Faithful first) start
        [.trade 1 (call .eurusd), .choose .usdjpy, .render, .store] :=
  ⟨(chart_faithful_iff (by decide +kernel)).mpr (by decide +kernel),
    mt (chart_faithful_iff (by decide +kernel)).mp (by decide +kernel)⟩

end Charting

end Client

end BetaTrader
