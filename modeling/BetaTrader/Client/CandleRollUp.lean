import BetaTrader.Client.CandleAggregator
import BetaTrader.Lib.Run

/-!
# Five minutes as minutes

The two candles of a symbol are kept apart.  A five-minute candle is begun only together
with a one-minute candle, and it says what the one-minute candles begun since say, unless
one of them was begun by a price that is NaN: such a candle keeps NaN for its highest and
its lowest price, whereas a NaN that comes later is passed over.
-/

namespace BetaTrader

namespace Client

/-! ## The first of the best -/

section Best

variable {P : Type} (r : P → P → Prop) [DecidableRel r]

/-- The first element that no later one is better than. -/
def best : List P → Option P
  | [] => none
  | x :: xs => some (xs.foldl (fun a b => if r a b then b else a) x)

variable {r}

theorem best_concat (xs : List P) (x : P) :
    best r (xs ++ [x]) = some ((best r xs).elim x fun a => if r a x then x else a) := by
  cases xs with
  | nil => rfl
  | cons y ys =>
      rw [List.cons_append, best, List.foldl_append]
      rfl

end Best

/-- An order of the doubles that are not NaN. -/
structure OrdersNumbers (r : Double → Double → Prop) : Prop where
  nan_left : ∀ x, ¬r .nan x
  nan_right : ∀ x, ¬r x .nan
  trans : ∀ x y z, r x y → r y z → r x z
  irrefl : ∀ x, ¬r x x
  eq : ∀ x y, x ≠ .nan → y ≠ .nan → ¬r x y → ¬r y x → x = y

theorem ordersNumbers_lt : OrdersNumbers (· < ·) where
  nan_left := Double.not_nan_lt
  nan_right := Double.not_lt_nan
  trans _ _ _ := Double.lt_trans
  irrefl := Double.lt_irrefl
  eq _ _ := Double.eq_of_not_lt

theorem ordersNumbers_gt : OrdersNumbers (· > ·) where
  nan_left := Double.not_lt_nan
  nan_right := Double.not_nan_lt
  trans _ _ _ hxy hyz := Double.lt_trans hyz hxy
  irrefl := Double.lt_irrefl
  eq _ _ hx hy hxy hyx := Double.eq_of_not_lt hx hy hyx hxy

section Replace

variable {r : Double → Double → Prop} [DecidableRel r] {xs : List Double} {m y : Double}

/-- What is best so far is replaced by the better of two. -/
theorem OrdersNumbers.replace_iff (h : OrdersNumbers r) (x y p : Double) :
    (if r x (if r y p then p else y) then (if r y p then p else y) else x) =
        (if r (if r x y then y else x) p then p else (if r x y then y else x)) ↔
      (y = .nan → ¬r (if r x y then y else x) p) := by
  by_cases hy : y = .nan
  · subst hy
    rw [if_neg (h.nan_left p), if_neg (h.nan_right x)]
    by_cases hp : r x p
    · rw [if_pos hp]
      refine iff_of_false ?_ fun hnot => hnot rfl hp
      rintro rfl
      exact h.irrefl x hp
    · rw [if_neg hp]
      exact iff_of_true rfl fun _ => hp
  · refine iff_of_true ?_ fun hnan => (hy hnan).elim
    by_cases hxy : r x y
    · rw [if_pos hxy]
      by_cases hyp : r y p
      · rw [if_pos hyp, if_pos (h.trans x y p hxy hyp)]
      · rw [if_neg hyp, if_pos hxy]
    · rw [if_neg hxy]
      by_cases hyp : r y p
      · rw [if_pos hyp]
      · rw [if_neg hyp, if_neg hxy, if_neg]
        -- the price would be better than `y` as well
        intro hxp
        have hx : x ≠ .nan := by
          rintro rfl
          exact h.nan_left p hxp
        have hyx : ¬r y x := fun hyx => hyp (h.trans y x p hyx hxp)
        exact hyp (h.eq x y hx hy hxy hyx ▸ hxp)

/-- The last element is replaced by the better of it and another one, and so is the best. -/
theorem OrdersNumbers.best_replace_iff (h : OrdersNumbers r) (hbest : best r (xs ++ [y]) = some m)
    (p : Double) :
    best r (xs ++ [if r y p then p else y]) = some (if r m p then p else m) ↔
      (y = .nan → ¬r m p) := by
  rw [best_concat, Option.some.injEq] at hbest
  rw [best_concat, Option.some.injEq, ← hbest]
  cases best r xs with
  | none =>
      refine iff_of_true rfl ?_
      rintro rfl
      exact h.nan_left p
  | some x => exact h.replace_iff x y p

end Replace

/-! ## Roll-ups -/

/-- The candle has the first price of the candles, their last, highest and lowest one, and
the sum of their volumes modulo `2 ^ 64`. -/
structure Candle.IsRollUp (candle : Candle Double) (candles : List (Candle Double)) : Prop where
  «open» : candles.head?.map (·.open) = some candle.open
  close : candles.getLast?.map (·.close) = some candle.close
  high : best (· < ·) (candles.map (·.high)) = some candle.high
  low : best (· > ·) (candles.map (·.low)) = some candle.low
  volume : candle.volume.toNat = (candles.map (·.volume.toNat)).sum % 2 ^ 64

/-- A NaN in the one-minute candle hides no price that would change the five-minute
candle. -/
def Shows (minute fiveMinutes : Candle Double) (price : Double) : Prop :=
  (minute.high = .nan → ¬fiveMinutes.high < price) ∧
    (minute.low = .nan → ¬price < fiveMinutes.low)

instance (minute fiveMinutes : Candle Double) (price : Double) :
    Decidable (Shows minute fiveMinutes price) :=
  inferInstanceAs (Decidable (_ ∧ _))

section RollUp

variable {fiveMinutes minute : Candle Double} {candles : List (Candle Double)}

theorem isRollUp_newCandle (trade : TradeCall Double) :
    (newCandle 5 trade).IsRollUp [newCandle 1 trade] where
  «open» := rfl
  close := rfl
  high := rfl
  low := rfl
  volume := by simp [newCandle, Nat.mod_eq_of_lt trade.qty.toNat_lt]

/-- The trade begins a one-minute candle. -/
theorem Candle.IsRollUp.concat (h : fiveMinutes.IsRollUp candles) (trade : TradeCall Double) :
    (fiveMinutes.update trade).IsRollUp (candles ++ [newCandle 1 trade]) where
  «open» := by
    have hopen := h.open
    cases candles with
    | nil => cases hopen
    | cons candle candles => exact hopen
  close := by simp [newCandle, Candle.update]
  high := by
    rw [List.map_append, List.map_singleton, best_concat, h.high]
    rfl
  low := by
    rw [List.map_append, List.map_singleton, best_concat, h.low]
    rfl
  volume := by
    have hvolume := h.volume
    simp only [Candle.update, UInt64.toNat_add, newCandle, List.map_append, List.sum_append,
      List.map_cons, List.map_nil, List.sum_cons, List.sum_nil]
    omega

/-- The trade is put into the last one-minute candle. -/
theorem Candle.IsRollUp.update_iff (h : fiveMinutes.IsRollUp (candles ++ [minute]))
    (trade : TradeCall Double) :
    (fiveMinutes.update trade).IsRollUp (candles ++ [minute.update trade]) ↔
      Shows minute fiveMinutes trade.price := by
  have hhigh : best (· < ·) ((candles ++ [minute.update trade]).map (·.high)) =
      some (fiveMinutes.update trade).high ↔
        (minute.high = .nan → ¬fiveMinutes.high < trade.price) := by
    have hbest := h.high
    rw [List.map_append, List.map_singleton] at hbest ⊢
    exact ordersNumbers_lt.best_replace_iff hbest trade.price
  have hlow : best (· > ·) ((candles ++ [minute.update trade]).map (·.low)) =
      some (fiveMinutes.update trade).low ↔
        (minute.low = .nan → ¬trade.price < fiveMinutes.low) := by
    have hbest := h.low
    rw [List.map_append, List.map_singleton] at hbest ⊢
    exact ordersNumbers_gt.best_replace_iff hbest trade.price
  constructor
  · intro hrolled
    exact ⟨hhigh.mp hrolled.high, hlow.mp hrolled.low⟩
  · rintro ⟨hshowshigh, hshowslow⟩
    refine { «open» := ?_, close := ?_, high := hhigh.mpr hshowshigh, low := hlow.mpr hshowslow,
             volume := ?_ }
    · have hopen := h.open
      cases candles with
      | nil => exact hopen
      | cons candle candles => exact hopen
    · simp [Candle.update]
    · have hvolume := h.volume
      simp only [Candle.update, UInt64.toNat_add, List.map_append, List.sum_append,
        List.map_cons, List.map_nil, List.sum_cons, List.sum_nil] at hvolume ⊢
      omega

/-- The highest and the lowest price of the candle are numbers. -/
def Candle.Ranked (candle : Candle Double) : Prop := candle.high ≠ .nan ∧ candle.low ≠ .nan

theorem Candle.ranked_newCandle {interval : Int32} {trade : TradeCall Double}
    (hprice : trade.price ≠ .nan) : (newCandle interval trade).Ranked :=
  ⟨hprice, hprice⟩

theorem Candle.Ranked.update {trade : TradeCall Double} (h : minute.Ranked)
    (hprice : trade.price ≠ .nan) : (minute.update trade).Ranked := by
  constructor
  · rw [Candle.update, stdMax]
    split_ifs
    · exact hprice
    · exact h.1
  · rw [Candle.update, stdMin]
    split_ifs
    · exact hprice
    · exact h.2

theorem Candle.Ranked.shows (h : minute.Ranked) (price : Double) : Shows minute fiveMinutes price :=
  ⟨fun hhigh => (h.1 hhigh).elim, fun hlow => (h.2 hlow).elim⟩

end RollUp

/-! ## The two candles of a symbol -/

/-- Where the five minutes of a minute begin. -/
def fiveMinuteStart (start : ℤ) : ℤ := start.tdiv 300 * 300

theorem coarsens_candleRule :
    Windows.Rule.Coarsens fiveMinuteStart (candleRule (P := Double) 1) (candleRule 5) where
  monotone _ _ h := Int.mul_le_mul_of_nonneg_right (Int.tdiv_le_tdiv (by decide) h) (by decide)
  keyOf trade := by
    have hone : (candleRule (P := Double) 1).keyOf trade =
        (trade.timestampNs.toInt.tdiv 1000000000).tdiv 60 * 60 := toInt_bucketStart (Or.inl rfl) _
    have hfive : (candleRule (P := Double) 5).keyOf trade =
        (trade.timestampNs.toInt.tdiv 1000000000).tdiv 300 * 300 :=
      toInt_bucketStart (Or.inr rfl) _
    rw [hone, hfive, fiveMinuteStart]
    grind

section Step

open Windows

variable {closed : List (Candle Double)} {minute fiveMinutes : Option (Candle Double)} {since : ℕ}

/-- What a trade does to the candles of its symbol: the five-minute candle is the roll-up of
the one-minute candles from the number `since` on. -/
theorem isRollUp_step_iff (trade : TradeCall Double)
    (haligned : Rule.Aligned fiveMinuteStart (candleRule 1) (candleRule 5) minute fiveMinutes)
    (hsince : since ≤ closed.length)
    (h : ∀ candle ∈ fiveMinutes, candle.IsRollUp ((closed ++ minute.toList).drop since)) :
    let s := (candleRule 1).step (closed, minute) trade
    let since' := if (candleRule 5).Opens fiveMinutes trade then (closed ++ minute.toList).length
      else since
    ((candleRule 5).next fiveMinutes trade).IsRollUp ((s.1 ++ s.2.toList).drop since') ↔
      ∀ m ∈ minute, ∀ f ∈ fiveMinutes, (candleRule 1).Opens minute trade ∨
        Shows m f trade.price := by
  intro s since'
  by_cases hfive : (candleRule 5).Opens fiveMinutes trade
  · have hone : (candleRule 1).Opens minute trade := coarsens_candleRule.opens haligned hfive
    have hdrop : (s.1 ++ s.2.toList).drop since' = [newCandle 1 trade] := by
      simp only [s, since', Rule.step, if_pos hone, if_pos hfive, Rule.next_of_opens hone]
      exact List.drop_left
    rw [hdrop, Rule.next_of_opens hfive]
    exact iff_of_true (isRollUp_newCandle trade) fun _ _ _ _ => Or.inl hone
  · cases haligned with
    | none => exact (hfive (Rule.opens_none trade)).elim
    | @some minute fiveMinutes hkey =>
        have hrolled := h fiveMinutes rfl
        have hsplit : (closed ++ [minute]).drop since = closed.drop since ++ [minute] :=
          List.drop_append_of_le_length hsince
        rw [Option.toList_some, hsplit] at hrolled
        rw [Rule.next_of_not_opens hfive]
        by_cases hone : (candleRule 1).Opens (some minute) trade
        · have hdrop : (s.1 ++ s.2.toList).drop since' =
              closed.drop since ++ [minute] ++ [newCandle 1 trade] := by
            simp only [s, since', Rule.step, if_pos hone, if_neg hfive, Rule.next_of_opens hone]
            rw [List.drop_append_of_le_length (by simp; omega), Option.toList_some, hsplit]
            rfl
          rw [hdrop]
          exact iff_of_true (hrolled.concat trade) fun _ _ _ _ => Or.inl hone
        · have hdrop : (s.1 ++ s.2.toList).drop since' =
              closed.drop since ++ [minute.update trade] := by
            simp only [s, since', Rule.step, if_neg hone, if_neg hfive, Rule.next_of_not_opens hone]
            exact List.drop_append_of_le_length hsince
          rw [hdrop]
          refine (hrolled.update_iff trade).trans ?_
          simp [hone]

end Step

/-! ## Runs -/

/-- The trade begins a candle of the interval. -/
def CandleAggregator.Begins (aggregator : CandleAggregator Double) (interval : Int32)
    (trade : TradeCall Double) : Prop :=
  ∀ current ∈ aggregator.mAggregates trade.symbol interval,
    bucketStart interval trade.timestampNs > current.timestamp

theorem CandleAggregator.begins_iff {aggregator : CandleAggregator Double} {interval : Int32}
    {trade : TradeCall Double} : aggregator.Begins interval trade ↔
      (candleRule interval).Opens (aggregator.mAggregates trade.symbol interval) trade :=
  forall₂_congr fun _ _ => Int64.lt_iff_toInt_lt

instance (aggregator : CandleAggregator Double) (interval : Int32) (trade : TradeCall Double) :
    Decidable (aggregator.Begins interval trade) :=
  decidable_of_iff _ CandleAggregator.begins_iff.symm

/-- A run in which it is watched where the five-minute candles begin. -/
structure Watched where
  run : CandleAggregator Double × List (AggregatorEffect Double)
  /-- How many one-minute candles of a symbol had been begun when its current five-minute
  candle was. -/
  since : List Char → ℕ

namespace Watched

open CandleAggregator Windows

def start (hasCallback : Bool) : Watched := ⟨(init hasCallback, []), fun _ => 0⟩

def watch (w : Watched) (trade : TradeCall Double) : Watched where
  run := feed w.run trade
  since :=
    if w.run.1.Begins 5 trade then
      Function.update w.since trade.symbol (candles w.run 1 trade.symbol).length
    else w.since

/-- The five-minute candles are the roll-ups of the one-minute candles begun since. -/
def RolledUp (w : Watched) : Prop :=
  ∀ symbol, ∀ candle ∈ w.run.1.mAggregates symbol 5,
    candle.IsRollUp ((candles w.run 1 symbol).drop (w.since symbol))

/-- A trade that begins a five-minute candle begins a one-minute candle. -/
def BeginsTogether (w : Watched) (trade : TradeCall Double) : Prop :=
  w.run.1.Begins 5 trade → w.run.1.Begins 1 trade

/-- The trade begins a one-minute candle, or no NaN in the current one hides a price that
would change the five-minute candle. -/
def ShowsPrice (w : Watched) (trade : TradeCall Double) : Prop :=
  ∀ minute ∈ w.run.1.mAggregates trade.symbol 1,
    ∀ fiveMinutes ∈ w.run.1.mAggregates trade.symbol 5,
      w.run.1.Begins 1 trade ∨ Shows minute fiveMinutes trade.price

/-- The candles of a symbol fit together. -/
structure Sound (w : Watched) : Prop where
  labelled : w.run.1.Labelled
  aligned : ∀ symbol, Rule.Aligned fiveMinuteStart (candleRule 1) (candleRule 5)
    (w.run.1.mAggregates symbol 1) (w.run.1.mAggregates symbol 5)
  since_le : ∀ symbol, w.since symbol ≤ (history w.run 1 symbol).1.length

variable {w : Watched}

theorem sound_start (hasCallback : Bool) : (start hasCallback).Sound where
  labelled := by simp [Labelled, start, init]
  aligned _ := Option.Rel.none
  since_le _ := Nat.le_refl 0

theorem rolledUp_start (hasCallback : Bool) : (start hasCallback).RolledUp := by
  intro symbol candle hcandle
  cases hcandle

/-- The candles of the traded symbol after a trade, and those of any other symbol. -/
theorem history_watch (h : w.Sound) (trade : TradeCall Double) (symbol : List Char)
    {interval : Int32} (hinterval : interval = 1 ∨ interval = 5) :
    history (w.watch trade).run interval symbol =
      if symbol = trade.symbol then
        (candleRule interval).step (history w.run interval symbol) trade
      else history w.run interval symbol :=
  history_feed h.labelled trade symbol hinterval

theorem since_watch (trade : TradeCall Double) (symbol : List Char) :
    (w.watch trade).since symbol =
      if symbol = trade.symbol ∧ w.run.1.Begins 5 trade then (candles w.run 1 symbol).length
      else w.since symbol := by
  by_cases hbegins : w.run.1.Begins 5 trade
  · by_cases hsymbol : symbol = trade.symbol
    · simp [watch, hbegins, hsymbol]
    · simp [watch, hbegins, hsymbol]
  · simp [watch, hbegins]

theorem mAggregates_watch (h : w.Sound) (trade : TradeCall Double) (symbol : List Char)
    {interval : Int32} (hinterval : interval = 1 ∨ interval = 5) :
    (w.watch trade).run.1.mAggregates symbol interval =
      if symbol = trade.symbol then
        some ((candleRule interval).next (w.run.1.mAggregates symbol interval) trade)
      else w.run.1.mAggregates symbol interval := by
  have hhistory := congrArg Prod.snd (history_watch h trade symbol hinterval)
  refine Eq.trans hhistory ?_
  split_ifs <;> rfl

theorem Sound.beginsTogether (h : w.Sound) (trade : TradeCall Double) :
    w.BeginsTogether trade := by
  rw [BeginsTogether, begins_iff, begins_iff]
  exact coarsens_candleRule.opens (h.aligned trade.symbol)

theorem Sound.watch (h : w.Sound) (trade : TradeCall Double) : (w.watch trade).Sound where
  labelled := h.labelled.feed trade
  aligned symbol := by
    rw [mAggregates_watch h trade symbol (Or.inl rfl),
      mAggregates_watch h trade symbol (Or.inr rfl)]
    split_ifs
    · exact coarsens_candleRule.aligned_next (h.aligned symbol) trade
    · exact h.aligned symbol
  since_le symbol := by
    have hle := h.since_le symbol
    rw [history_watch h trade symbol (Or.inl rfl), since_watch]
    by_cases hsymbol : symbol = trade.symbol
    · rw [if_pos hsymbol, Rule.step]
      by_cases hbegins : w.run.1.Begins 5 trade
      · have hone : (candleRule 1).Opens (history w.run 1 symbol).2 trade := by
          rw [hsymbol]
          exact begins_iff.mp (h.beginsTogether trade hbegins)
        rw [if_pos ⟨hsymbol, hbegins⟩, if_pos hone]
        exact Nat.le_refl _
      · rw [if_neg fun hall => hbegins hall.2]
        split_ifs
        · exact hle.trans (List.sublist_append_left _ _).length_le
        · exact hle
    · rw [if_neg hsymbol, if_neg fun hall => hsymbol hall.1]
      exact hle

/-- The roll-ups survive exactly the trades whose prices are shown. -/
theorem rolledUp_watch_iff (h : w.Sound) (hrolled : w.RolledUp) (trade : TradeCall Double) :
    (w.watch trade).RolledUp ↔ w.ShowsPrice trade := by
  have hstep := isRollUp_step_iff trade (h.aligned trade.symbol) (h.since_le trade.symbol)
    (hrolled trade.symbol)
  have hself : (∀ candle ∈ (w.watch trade).run.1.mAggregates trade.symbol 5,
      candle.IsRollUp ((candles (w.watch trade).run 1 trade.symbol).drop
        ((w.watch trade).since trade.symbol))) ↔ w.ShowsPrice trade := by
    have hcandles := history_watch h trade trade.symbol (Or.inl rfl)
    have hsince : (w.watch trade).since trade.symbol = _ := since_watch trade trade.symbol
    rw [if_pos rfl] at hcandles
    simp only [true_and, begins_iff] at hsince
    rw [mAggregates_watch h trade trade.symbol (Or.inr rfl), if_pos rfl, candles, hcandles, hsince,
      ShowsPrice]
    simp only [Option.mem_some_iff, forall_eq', begins_iff]
    exact hstep
  refine Iff.trans ?_ hself
  constructor
  · exact fun hnext => hnext trade.symbol
  · intro hnext symbol candle hcandle
    by_cases hsymbol : symbol = trade.symbol
    · exact hsymbol ▸ hnext candle (hsymbol ▸ hcandle)
    · have hcandles := history_watch h trade symbol (Or.inl rfl)
      rw [if_neg hsymbol] at hcandles
      rw [mAggregates_watch h trade symbol (Or.inr rfl), if_neg hsymbol] at hcandle
      rw [candles, hcandles, since_watch, if_neg fun hall => hsymbol hall.1]
      exact hrolled symbol candle hcandle

/-- In every state of a run the five-minute candles are the roll-ups of the one-minute
candles, and they are begun together, exactly if no trade is hidden by a NaN. -/
theorem rolled_up_iff (hasCallback : Bool) (trades : List (TradeCall Double)) :
    TotalRun.Always watch RolledUp (start hasCallback) trades ∧
        TotalRun.Meets watch BeginsTogether (start hasCallback) trades ↔
      TotalRun.Meets watch ShowsPrice (start hasCallback) trades := by
  have hstart : (start hasCallback).Sound ∧ (start hasCallback).RolledUp :=
    ⟨sound_start hasCallback, rolledUp_start hasCallback⟩
  have hrolled : ∀ w : Watched, w.Sound ∧ w.RolledUp → w.RolledUp := fun _ h => h.2
  refine TotalRun.always_and_meets_iff hrolled (fun w trade h => ?_) hstart
  have hiff := rolledUp_watch_iff h.1 h.2 trade
  constructor
  · intro hshows
    exact ⟨⟨h.1.watch trade, hiff.mpr hshows⟩, h.1.beginsTogether trade⟩
  · exact fun hrolled _ => hiff.mp hrolled

/-- A trade of EURUSD, `second` seconds after the epoch. -/
def sampleTrade (price : Double) (second : Int64) : TradeCall Double where
  symbol := "EURUSD".toList
  price := price
  qty := 1
  timestampNs := second * 1000000000

/-- The second one-minute candle is begun by a NaN, so it does not show the 2 that follows. -/
theorem not_rolledUp_nan :
    ¬(TotalRun.Always watch RolledUp (start false)
        [sampleTrade (.finite 1) 0, sampleTrade .nan 60, sampleTrade (.finite 2) 61] ∧
      TotalRun.Meets watch BeginsTogether (start false)
        [sampleTrade (.finite 1) 0, sampleTrade .nan 60, sampleTrade (.finite 2) 61]) := by
  rintro ⟨halways, -⟩
  have hrolled := halways.last "EURUSD".toList
  have hhigh := fun candle hcandle => (hrolled candle hcandle).high
  revert hhigh
  decide +kernel

/-- Prices that are numbers hide nothing. -/
theorem meets_showsPrice (hasCallback : Bool) {trades : List (TradeCall Double)}
    (h : ∀ trade ∈ trades, trade.price ≠ .nan) :
    TotalRun.Meets watch ShowsPrice (start hasCallback) trades := by
  have hnumbers : TotalRun.Meets watch (fun _ trade => trade.price ≠ .nan) (start hasCallback)
      trades := by
    refine TotalRun.meets_iff_forall.mpr fun before trade after htrades => h trade ?_
    rw [htrades]
    exact List.mem_append_right _ List.mem_cons_self
  have hstart : ∀ symbol, ∀ minute ∈ (start hasCallback).run.1.mAggregates symbol 1,
      minute.Ranked := by
    intro symbol minute hminute
    cases hminute
  refine TotalRun.meets_of_inv
    (fun w => w.Sound ∧ ∀ symbol, ∀ minute ∈ w.run.1.mAggregates symbol 1, minute.Ranked)
    (fun w trade hw hprice => ?_) ⟨sound_start hasCallback, hstart⟩ hnumbers
  obtain ⟨hsound, hranked⟩ := hw
  refine ⟨⟨hsound.watch trade, fun symbol minute hminute => ?_⟩,
    fun minute hminute _ _ => Or.inr ((hranked _ minute hminute).shows _)⟩
  rw [mAggregates_watch hsound trade symbol (Or.inl rfl)] at hminute
  split_ifs at hminute
  · obtain rfl := Option.some.inj hminute
    exact Rule.next_induction (hranked symbol) (Candle.ranked_newCandle hprice)
      fun _ hcandle => hcandle.update hprice
  · exact hranked symbol minute hminute

end Watched

end Client

end BetaTrader
