import BetaTrader.Exchange.TradeIDGenerator
import BetaTrader.Exchange.TradingCore

/-!
# Order ids across restarts

`OrderIDGenerator` starts from the largest key of the table `orders`.  An order
leaves the table when it is filled or cancelled, so that the largest key may be
smaller than the last id that was given out.
-/

namespace BetaTrader

variable {P : Type}

namespace OrderTable

theorem maxCoreOrderId_eq_none_iff {orders : OrderTable P} :
    orders.maxCoreOrderId = none ↔ orders = [] := by
  cases orders with
  | nil => simp [maxCoreOrderId]
  | cons row rows =>
      rw [maxCoreOrderId]
      split <;> simp

theorem maxCoreOrderId_spec {orders : OrderTable P} {key : Int64}
    (h : orders.maxCoreOrderId = some key) :
    (∃ row ∈ orders, row.coreOrderId = key) ∧ ∀ row ∈ orders, ¬key < row.coreOrderId := by
  induction orders generalizing key with
  | nil => simp [maxCoreOrderId] at h
  | cons row rows ih =>
      rw [maxCoreOrderId] at h
      cases hrows : maxCoreOrderId rows with
      | none =>
          rw [hrows] at h
          obtain rfl := Option.some.inj h
          obtain rfl := maxCoreOrderId_eq_none_iff.mp hrows
          simp
      | some old =>
          rw [hrows] at h
          obtain rfl := Option.some.inj h
          obtain ⟨⟨r, hr, hkey⟩, hmax⟩ := ih hrows
          split_ifs with hlt
          · refine ⟨⟨row, List.mem_cons_self, rfl⟩, fun r' hr' hr'lt => ?_⟩
            rcases List.mem_cons.mp hr' with rfl | hr'
            · exact Int64.lt_irrefl hr'lt
            · exact hmax r' hr' (Int64.lt_trans hlt hr'lt)
          · refine ⟨⟨r, List.mem_cons_of_mem row hr, hkey⟩, fun r' hr' => ?_⟩
            rcases List.mem_cons.mp hr' with rfl | hr'
            · exact hlt
            · exact hmax r' hr'

/-- The tasks bring in no keys but those of the orders that they save. -/
theorem mem_executeAll {orders : OrderTable P} {tasks : List (DatabaseTask P)} {row : OrderRow P}
    (h : row ∈ orders.executeAll tasks) :
    (∃ old ∈ orders, row.coreOrderId = old.coreOrderId) ∨
      ∃ order, .saveOrder order ∈ tasks ∧ row.coreOrderId = order.coreOrderId.toInt64 := by
  induction tasks generalizing orders with
  | nil => exact Or.inl ⟨row, h, rfl⟩
  | cons task tasks ih =>
      rcases ih h with ⟨mid, hmid, hkey⟩ | ⟨order, hsave, hkey⟩
      · rw [hkey]
        rcases mem_execute hmid with ⟨old, hold, hid, _⟩ | ⟨order, rfl, rfl⟩
        · exact Or.inl ⟨old, hold, hid⟩
        · exact Or.inr ⟨order, List.mem_cons_self, rfl⟩
      · exact Or.inr ⟨order, List.mem_cons_of_mem task hsave, hkey⟩

end OrderTable

namespace OrderIDGenerator

open TradeIDGenerator (nextIds toNat_ofNat toInt64_lt_iff)

/-- A lifetime of the exchange: how many ids are drawn, and the tasks that have
been executed by its end. -/
structure Lifetime (P : Type) where
  drawn : ℕ
  tasks : List (DatabaseTask P)

/-- The ids of one lifetime, and the table that it leaves.  The counter is that
of the trade ids, but for its start. -/
def lifetime (orders : OrderTable P) (l : Lifetime P) : List OrderID × OrderTable P :=
  (nextIds orders.loadInitialState l.drawn, orders.executeAll l.tasks)

/-- The ids drawn in a sequence of lifetimes over one database. -/
def lifetimes (orders : OrderTable P) : List (Lifetime P) → List OrderID
  | [] => []
  | l :: ls => (lifetime orders l).1 ++ lifetimes (lifetime orders l).2 ls

/-- Orders are saved under ids that have been drawn, `ids` before the first of
these lifetimes. -/
def SavesDrawn : List OrderID → OrderTable P → List (Lifetime P) → Prop
  | _, _, [] => True
  | ids, orders, l :: ls =>
      (∀ order, .saveOrder order ∈ l.tasks → order.coreOrderId ∈ ids ++ (lifetime orders l).1) ∧
        SavesDrawn (ids ++ (lifetime orders l).1) (lifetime orders l).2 ls

/-- The order with the last of `n` ids is in the table, and if the signed column
makes its key negative, so are all others. -/
def KeepsLast (n : ℕ) (orders : OrderTable P) : Prop :=
  n = 0 ∨ orders.hasKey (UInt64.ofNat n).toInt64 ∧
    (n < 2 ^ 63 ∨ ∀ row ∈ orders, row.coreOrderId < 0)

/-- Whenever a lifetime that draws ids begins, the order with the last id that has
been drawn is still in the table; `n` ids have been drawn before. -/
def KeepsLastAll : ℕ → OrderTable P → List (Lifetime P) → Prop
  | _, _, [] => True
  | n, orders, l :: ls =>
      (0 < l.drawn → KeepsLast n orders) ∧ KeepsLastAll (n + l.drawn) (lifetime orders l).2 ls

/-- All ids up to the `n`th. -/
def firstIds (n : ℕ) : List OrderID := (List.range' 1 n).map UInt64.ofNat

variable {orders : OrderTable P} {n : ℕ}

theorem mem_firstIds {id : OrderID} :
    id ∈ firstIds n ↔ ∃ k, 0 < k ∧ k ≤ n ∧ UInt64.ofNat k = id := by
  simp only [firstIds, List.mem_map, List.mem_range'_1]
  constructor
  · rintro ⟨k, ⟨hlow, hhigh⟩, rfl⟩
    exact ⟨k, hlow, by omega, rfl⟩
  · rintro ⟨k, hlow, hhigh, rfl⟩
    exact ⟨k, ⟨hlow, by omega⟩, rfl⟩

theorem firstIds_append (n count : ℕ) :
    firstIds n ++ nextIds (UInt64.ofNat n) count = firstIds (n + count) := by
  have happend := TradeIDGenerator.map_range'_append 0 n count
  rw [Nat.zero_add, Nat.zero_add] at happend
  rw [TradeIDGenerator.nextIds_ofNat, firstIds, happend, firstIds]

/-- All keys are ids that have been drawn. -/
def KeysDrawn (n : ℕ) (orders : OrderTable P) : Prop :=
  ∀ row ∈ orders, ∃ k, 0 < k ∧ k ≤ n ∧ row.coreOrderId = (UInt64.ofNat k).toInt64

/-- Where a lifetime starts from. -/
theorem exists_loadInitialState (h : KeysDrawn n orders) :
    ∃ k ≤ n, orders.loadInitialState = UInt64.ofNat k := by
  rw [OrderTable.loadInitialState]
  cases hmax : orders.maxCoreOrderId with
  | none => exact ⟨0, n.zero_le, rfl⟩
  | some key =>
      obtain ⟨⟨row, hrow, rfl⟩, _⟩ := OrderTable.maxCoreOrderId_spec hmax
      obtain ⟨k, _, hk, hkey⟩ := h row hrow
      exact ⟨k, hk, by rw [Option.getD_some, hkey, UInt64.toUInt64_toInt64]⟩

theorem toInt64_ofNat_inj {a b : ℕ} (ha : a < 2 ^ 64) (hb : b < 2 ^ 64)
    (h : (UInt64.ofNat a).toInt64 = (UInt64.ofNat b).toInt64) : a = b := by
  have hnat := congrArg UInt64.toNat (OrderID.toInt64_inj.mp h)
  rwa [toNat_ofNat ha, toNat_ofNat hb] at hnat

/-- In the signed column, the ids past `2^63` are negative. -/
theorem toInt64_ofNat_neg_iff {k : ℕ} (hpos : 0 < k) (hlt : k < 2 ^ 64) :
    (UInt64.ofNat k).toInt64 < 0 ↔ 2 ^ 63 ≤ k := by
  have hiff := toInt64_lt_iff hpos hlt
  rw [show (UInt64.ofNat 0).toInt64 = 0 from rfl] at hiff
  rw [hiff]
  omega

/-- The largest key is that of the last id, unless the last id is negative and
another one is not. -/
theorem keepsLast_iff {k : ℕ} (h : KeysDrawn n orders) (hn : n < 2 ^ 64) (hlow : 0 < k)
    (hhigh : k ≤ n) (hmax : orders.maxCoreOrderId = some (UInt64.ofNat k).toInt64) :
    KeepsLast n orders ↔ k = n := by
  obtain ⟨⟨row, hrow, hkey⟩, hlarger⟩ := OrderTable.maxCoreOrderId_spec hmax
  constructor
  · rintro (hzero | ⟨hlast, hsign⟩)
    · omega
    · by_contra hne
      have hlt : k < n := by omega
      obtain ⟨last, hmem, hlast⟩ := List.any_eq_true.mp hlast
      have hnot := hlarger last hmem
      rw [of_decide_eq_true hlast] at hnot
      have hsigns : ¬(k < 2 ^ 63 ∧ 2 ^ 63 ≤ n) := by
        rintro ⟨hk, hn'⟩
        have hneg := hsign.resolve_left (by omega) row hrow
        rw [hkey, toInt64_ofNat_neg_iff hlow (by omega)] at hneg
        omega
      rw [← toInt64_lt_iff hlt hn] at hsigns
      have hsame := Int64.le_antisymm (Int64.not_lt.mp hsigns) (Int64.not_lt.mp hnot)
      exact hne (toInt64_ofNat_inj (by omega) hn hsame)
  · rintro rfl
    refine Or.inr ⟨List.any_eq_true.mpr ⟨row, hrow, decide_eq_true hkey⟩, ?_⟩
    refine or_iff_not_imp_left.mpr fun hlarge other hother => ?_
    obtain ⟨j, hjlow, hjhigh, hjkey⟩ := h other hother
    have hnot := hlarger other hother
    rw [hjkey] at hnot
    rw [hjkey, toInt64_ofNat_neg_iff hjlow (by omega)]
    rcases hjhigh.lt_or_eq with hlt | rfl
    · rw [toInt64_lt_iff hlt hn] at hnot
      omega
    · omega

/-- A lifetime goes on behind the last id just when it finds it in the table. -/
theorem loadInitialState_eq_iff (h : KeysDrawn n orders) (hn : n < 2 ^ 64) :
    orders.loadInitialState = UInt64.ofNat n ↔ KeepsLast n orders := by
  rw [OrderTable.loadInitialState]
  cases hmax : orders.maxCoreOrderId with
  | none =>
      obtain rfl := OrderTable.maxCoreOrderId_eq_none_iff.mp hmax
      have hzero : UInt64.ofNat 0 = UInt64.ofNat n ↔ n = 0 := by
        rw [← UInt64.toNat_inj, toNat_ofNat (by omega), toNat_ofNat hn, eq_comm]
      refine hzero.trans ⟨Or.inl, ?_⟩
      rintro (hn0 | ⟨hkey, _⟩)
      · exact hn0
      · simp [OrderTable.hasKey] at hkey
  | some key =>
      obtain ⟨⟨row, hrow, rfl⟩, _⟩ := OrderTable.maxCoreOrderId_spec hmax
      obtain ⟨k, hlow, hhigh, hkey⟩ := h row hrow
      rw [hkey] at hmax
      rw [keepsLast_iff h hn hlow hhigh hmax, Option.getD_some, hkey, UInt64.toUInt64_toInt64,
        ← UInt64.toNat_inj, toNat_ofNat (by omega), toNat_ofNat hn]

/-- The tasks of a lifetime leave the keys among the ids. -/
theorem keysDrawn_lifetime {l : Lifetime P} (h : KeysDrawn n orders) {m : ℕ} (hle : n ≤ m)
    (hsaves : ∀ order, .saveOrder order ∈ l.tasks → order.coreOrderId ∈ firstIds m) :
    KeysDrawn m (lifetime orders l).2 := by
  intro row hrow
  rcases OrderTable.mem_executeAll hrow with ⟨old, hold, hkey⟩ | ⟨order, hsave, hkey⟩
  · obtain ⟨k, hlow, hhigh, hk⟩ := h old hold
    exact ⟨k, hlow, hhigh.trans hle, hkey.trans hk⟩
  · obtain ⟨k, hlow, hhigh, hk⟩ := mem_firstIds.mp (hsaves order hsave)
    exact ⟨k, hlow, hhigh, by rw [hkey, hk]⟩

/-- The ids of the first lifetimes are those up to the `n`th: the next one either
goes on behind them or draws one of them again. -/
theorem nodup_append_iff (ls : List (Lifetime P)) (h : KeysDrawn n orders)
    (hsaves : SavesDrawn (firstIds n) orders ls) (hsum : n + (ls.map Lifetime.drawn).sum ≤ 2 ^ 64) :
    (firstIds n ++ lifetimes orders ls).Nodup ↔ KeepsLastAll n orders ls := by
  induction ls generalizing n orders with
  | nil =>
      refine iff_of_true ?_ trivial
      rw [lifetimes, List.append_nil]
      exact TradeIDGenerator.nodup_map_ofNat (by simpa using hsum)
  | cons l ls ih =>
      obtain ⟨hsaves, hrest⟩ := hsaves
      rw [List.map_cons, List.sum_cons] at hsum
      rw [lifetimes, KeepsLastAll]
      by_cases hkeeps : 0 < l.drawn → KeepsLast n orders
      · have hids : firstIds n ++ (lifetime orders l).1 = firstIds (n + l.drawn) := by
          rcases Nat.eq_zero_or_pos l.drawn with hzero | hpos
          · rw [lifetime, hzero, nextIds, List.append_nil, Nat.add_zero]
          · rw [lifetime, (loadInitialState_eq_iff h (by omega)).mpr (hkeeps hpos), firstIds_append]
        rw [hids] at hsaves hrest
        rw [← List.append_assoc, hids, and_iff_right hkeeps]
        exact ih (keysDrawn_lifetime h (by omega) hsaves) hrest (by omega)
      · rw [Classical.not_imp] at hkeeps
        obtain ⟨hpos, hlost⟩ := hkeeps
        refine iff_of_false (fun hnodup => ?_) fun hkeeps => hlost (hkeeps.1 hpos)
        obtain ⟨k, hk, hstart⟩ := exists_loadInitialState h
        have hne : k ≠ n := by
          rintro rfl
          exact hlost ((loadInitialState_eq_iff h (by omega)).mp hstart)
        have hagain : UInt64.ofNat (k + 1) ∈ (lifetime orders l).1 := by
          rw [lifetime, hstart, TradeIDGenerator.nextIds_ofNat]
          exact List.mem_map_of_mem (List.mem_range'_1.mpr ⟨le_rfl, by omega⟩)
        exact (List.nodup_append.mp hnodup).2.2 _
          (mem_firstIds.mpr ⟨k + 1, by omega, by omega, rfl⟩) _
          (List.mem_append_left _ hagain) rfl

theorem length_lifetimes (orders : OrderTable P) (ls : List (Lifetime P)) :
    (lifetimes orders ls).length = (ls.map Lifetime.drawn).sum := by
  induction ls generalizing orders with
  | nil => rfl
  | cons l ls ih =>
      rw [lifetimes, List.length_append, ih, List.map_cons, List.sum_cons, lifetime,
        TradeIDGenerator.length_nextIds]

/-- Over a new database no id is drawn twice exactly when every lifetime that draws
ids finds the order with the last one in the table, and the counter does not come
round. -/
theorem orderIds_nodup_iff (ls : List (Lifetime P)) (hsaves : SavesDrawn [] [] ls) :
    (lifetimes [] ls).Nodup ↔ (ls.map Lifetime.drawn).sum ≤ 2 ^ 64 ∧ KeepsLastAll 0 [] ls := by
  have hkeys : KeysDrawn 0 ([] : OrderTable P) := fun row hrow => absurd hrow List.not_mem_nil
  constructor
  · intro hnodup
    have hsum : (ls.map Lifetime.drawn).sum ≤ 2 ^ 64 := by
      rw [← length_lifetimes []]
      exact TradeIDGenerator.length_le_of_nodup hnodup
    exact ⟨hsum, (nodup_append_iff ls hkeys hsaves (by omega)).mp hnodup⟩
  · rintro ⟨hsum, hkeeps⟩
    exact (nodup_append_iff ls hkeys hsaves (by omega)).mpr hkeeps

def Sample.order (id : OrderID) : Order Double :=
  .create "A" id .eurusd "1" "ALICE" .buy .limit .day 10 (.finite 1) 0

/-- The order with the last id rests over the restart. -/
theorem orderIds_nodup_iff_sample :
    (lifetimes [] [⟨2, [.saveOrder (Sample.order 2)]⟩, ⟨1, []⟩]).Nodup ↔
      3 ≤ 2 ^ 64 ∧ KeepsLastAll 0 [] [⟨2, [.saveOrder (Sample.order 2)]⟩, ⟨1, []⟩] := by
  refine orderIds_nodup_iff _ ⟨fun order horder => ?_, fun order horder => ?_, trivial⟩
  · obtain rfl := DatabaseTask.saveOrder.inj (List.mem_singleton.mp horder)
    decide
  · exact absurd horder List.not_mem_nil

/-- An order that is cancelled before the restart leaves its id to the next one. -/
theorem cancelled_id_reused :
    ¬∀ ls : List (Lifetime Double), SavesDrawn [] [] ls → (lifetimes [] ls).Nodup := by
  intro h
  have hsaves (tasks : List (DatabaseTask Double))
      (htasks : ∀ order, .saveOrder order ∈ tasks → order = Sample.order 1) :
      ∀ order, .saveOrder order ∈ tasks → order.coreOrderId ∈ ([1] : List OrderID) := by
    intro order horder
    rw [htasks order horder]
    decide
  have hreused := h [⟨1, [.saveOrder (Sample.order 1), .removeOrder 1]⟩, ⟨1, []⟩]
    ⟨hsaves _ (by simp), fun order horder => absurd horder List.not_mem_nil, trivial⟩
  revert hreused
  decide

end OrderIDGenerator

end BetaTrader
