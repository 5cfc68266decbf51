import BetaTrader.Common.Types
import Mathlib.Data.List.Count
import Mathlib.Data.List.Nodup
import Mathlib.Data.List.Range
import Mathlib.Data.List.Sort
import Mathlib.Data.Fintype.Card

/-!
# Trade ids across restarts

`TradeIDGenerator` and the table `trade_id` behind `TradeIDRepository`.  The
table holds a row for every id that was ever saved, its key is the only column,
and `SELECT id FROM trade_id` returns the rows in ascending key order.  The
repository reads the first row, so what a lifetime starts from is the smallest
id that was saved, not the last.
-/

namespace BetaTrader

/-- The keys of `trade_id` in ascending order. -/
structure TradeIDTable where
  rows : List Int64
  sorted : rows.Pairwise (· < ·)

namespace TradeIDTable

def empty : TradeIDTable := ⟨[], List.Pairwise.nil⟩

/-- `INSERT OR REPLACE INTO trade_id (id) VALUES (?)`, on the keys in order. -/
def insertKey (key : Int64) : List Int64 → List Int64
  | [] => [key]
  | row :: rows =>
      if key < row then key :: row :: rows
      else if key = row then row :: rows
      else row :: insertKey key rows

theorem mem_insertKey {key row : Int64} {rows : List Int64} (h : row ∈ insertKey key rows) :
    row = key ∨ row ∈ rows := by
  induction rows with
  | nil => exact Or.inl (List.mem_singleton.mp h)
  | cons first rows ih =>
      rw [insertKey] at h
      split_ifs at h
      · exact List.mem_cons.mp h
      · exact Or.inr h
      · rcases List.mem_cons.mp h with rfl | h
        · exact Or.inr List.mem_cons_self
        · exact (ih h).imp_right (List.mem_cons_of_mem _)

theorem sorted_insertKey {key : Int64} {rows : List Int64} (h : rows.Pairwise (· < ·)) :
    (insertKey key rows).Pairwise (· < ·) := by
  induction rows with
  | nil => exact List.pairwise_singleton _ _
  | cons first rows ih =>
      obtain ⟨hfirst, hrows⟩ := List.pairwise_cons.mp h
      rw [insertKey]
      split_ifs with hlt heq
      · refine List.pairwise_cons.mpr ⟨fun row hrow => ?_, h⟩
        rcases List.mem_cons.mp hrow with rfl | hrow
        · exact hlt
        · exact Int64.lt_trans hlt (hfirst row hrow)
      · exact h
      · refine List.pairwise_cons.mpr ⟨fun row hrow => ?_, ih hrows⟩
        rcases mem_insertKey hrow with rfl | hrow
        · exact Int64.lt_of_le_of_ne (Int64.not_lt.mp hlt) (Ne.symm heq)
        · exact hfirst row hrow

def insertOrReplace (table : TradeIDTable) (key : Int64) : TradeIDTable :=
  ⟨insertKey key table.rows, sorted_insertKey table.sorted⟩

@[simp] theorem insertOrReplace_rows (table : TradeIDTable) (key : Int64) :
    (table.insertOrReplace key).rows = insertKey key table.rows := rfl

/-- The first row of `SELECT id FROM trade_id`, or `0`. -/
def getCurrentTradeID (table : TradeIDTable) : UInt64 :=
  match table.rows with
  | [] => 0
  | row :: _ => row.toUInt64

def setCurrentTradeID (table : TradeIDTable) (tradeID : UInt64) : TradeIDTable :=
  if table.getCurrentTradeID < tradeID then table.insertOrReplace tradeID.toInt64 else table

end TradeIDTable

namespace TradeIDGenerator

/-- `++mCurrentId`: the new value of the counter is the id. -/
def nextId (currentId : UInt64) : UInt64 := currentId + 1

/-- What `count` calls of `nextId` return. -/
def nextIds (currentId : UInt64) : ℕ → List UInt64
  | 0 => []
  | count + 1 => nextId currentId :: nextIds (nextId currentId) count

/-- The counter after `count` calls of `nextId`. -/
def advance (currentId : UInt64) : ℕ → UInt64
  | 0 => currentId
  | count + 1 => advance (nextId currentId) count

/-- One lifetime: the constructor loads the counter, `count` ids are drawn, and
the destructor's task saves the counter. -/
def lifetime (table : TradeIDTable) (count : ℕ) : List UInt64 × TradeIDTable :=
  (nextIds table.getCurrentTradeID count,
    table.setCurrentTradeID (advance table.getCurrentTradeID count))

/-- The ids drawn in a sequence of lifetimes over one database. -/
def lifetimes (table : TradeIDTable) : List ℕ → List UInt64
  | [] => []
  | count :: counts => (lifetime table count).1 ++ lifetimes (lifetime table count).2 counts

/-! ## Numbers -/

theorem nextId_ofNat (k : ℕ) : nextId (UInt64.ofNat k) = UInt64.ofNat (k + 1) := by
  rw [nextId, UInt64.ofNat_add]
  rfl

theorem advance_ofNat (k count : ℕ) :
    advance (UInt64.ofNat k) count = UInt64.ofNat (k + count) := by
  induction count generalizing k with
  | zero => rfl
  | succ count ih => rw [advance, nextId_ofNat, ih, Nat.add_right_comm, Nat.add_assoc]

theorem nextIds_ofNat (k count : ℕ) :
    nextIds (UInt64.ofNat k) count = (List.range' (k + 1) count).map UInt64.ofNat := by
  induction count generalizing k with
  | zero => rfl
  | succ count ih => rw [nextIds, nextId_ofNat, ih, List.range'_succ, List.map_cons]

theorem toNat_ofNat {k : ℕ} (h : k < 2 ^ 64) : (UInt64.ofNat k).toNat = k :=
  UInt64.toNat_ofNat_of_lt' h

/-- Consecutive ids differ as long as the counter does not come round. -/
theorem nodup_map_ofNat {k count : ℕ} (h : count ≤ 2 ^ 64) :
    ((List.range' k count).map UInt64.ofNat).Nodup := by
  refine List.Nodup.map_on (fun a ha b hb heq => ?_) List.nodup_range'
  rw [List.mem_range'_1] at ha hb
  have hmod : a % 2 ^ 64 = b % 2 ^ 64 := by
    rw [← UInt64.toNat_ofNat', ← UInt64.toNat_ofNat', heq]
  omega

theorem length_le_of_nodup {ids : List UInt64} (h : ids.Nodup) : ids.length ≤ 2 ^ 64 := by
  have hfin : (ids.map UInt64.toFin).Nodup := h.map fun _ _ => UInt64.toFin_inj.mp
  simpa [UInt64.size] using hfin.length_le_card

/-- In the signed column a larger id comes first when it is past `2^63` and the
other one is not. -/
theorem toInt64_lt_iff {a b : ℕ} (hab : a < b) (hb : b < 2 ^ 64) :
    (UInt64.ofNat b).toInt64 < (UInt64.ofNat a).toInt64 ↔ a < 2 ^ 63 ∧ 2 ^ 63 ≤ b := by
  have hsigned (k : ℕ) (hk : k < 2 ^ 64) :
      (UInt64.ofNat k).toInt64.toInt = if k < 2 ^ 63 then (k : ℤ) else k - 2 ^ 64 := by
    rw [← Int64.toInt_toBitVec, UInt64.toBitVec_toInt64, BitVec.toInt_eq_toNat_cond]
    rw [UInt64.toNat_toBitVec, toNat_ofNat hk]
    split_ifs <;> omega
  rw [Int64.lt_iff_toInt_lt, hsigned a (by omega), hsigned b hb]
  split_ifs <;> omega

/-! ## Lifetimes -/

/-- A lifetime that draws nothing saves nothing. -/
theorem lifetime_zero (table : TradeIDTable) : lifetime table 0 = ([], table) := by
  have hnot : ¬table.getCurrentTradeID < table.getCurrentTradeID := UInt64.lt_irrefl _
  rw [lifetime, nextIds, advance, TradeIDTable.setCurrentTradeID, if_neg hnot]

/-- Only the lifetimes that draw ids matter. -/
theorem lifetimes_filter (table : TradeIDTable) (counts : List ℕ) :
    lifetimes table (counts.filter (0 < ·)) = lifetimes table counts := by
  induction counts generalizing table with
  | nil => rfl
  | cons count counts ih =>
      cases count with
      | zero =>
          have hskip : (0 :: counts).filter (0 < ·) = counts.filter (0 < ·) :=
            List.filter_cons_of_neg (by simp)
          rw [hskip, ih, lifetimes, lifetime_zero, List.nil_append]
      | succ count =>
          have hkeep : ((count + 1) :: counts).filter (0 < ·) =
              (count + 1) :: counts.filter (0 < ·) := List.filter_cons_of_pos (by simp)
          rw [hkeep, lifetimes, lifetimes, ih]

theorem length_nextIds (currentId : UInt64) (count : ℕ) :
    (nextIds currentId count).length = count := by
  induction count generalizing currentId with
  | zero => rfl
  | succ count ih => rw [nextIds, List.length_cons, ih]

theorem length_lifetimes (table : TradeIDTable) (counts : List ℕ) :
    (lifetimes table counts).length = counts.sum := by
  induction counts generalizing table with
  | nil => rfl
  | cons count counts ih =>
      rw [lifetimes, List.length_append, ih, List.sum_cons, lifetime, length_nextIds]

/-- The next lifetime starts from `k`, the first row. -/
def StartsAt (table : TradeIDTable) (k : ℕ) : Prop :=
  ∃ rows, table.rows = (UInt64.ofNat k).toInt64 :: rows

theorem getCurrentTradeID_of_startsAt {table : TradeIDTable} {k : ℕ} (h : StartsAt table k) :
    table.getCurrentTradeID = UInt64.ofNat k := by
  obtain ⟨rows, hrows⟩ := h
  rw [TradeIDTable.getCurrentTradeID, hrows]
  exact UInt64.toUInt64_toInt64 _

theorem ids_of_getCurrentTradeID {table : TradeIDTable} {k : ℕ}
    (h : table.getCurrentTradeID = UInt64.ofNat k) (count : ℕ) :
    (lifetime table count).1 = (List.range' (k + 1) count).map UInt64.ofNat := by
  rw [lifetime, h, nextIds_ofNat]

/-- A lifetime that draws ids, without wrapping, adds the last of them. -/
theorem rows_lifetime {table : TradeIDTable} {k count : ℕ}
    (h : table.getCurrentTradeID = UInt64.ofNat k) (hcount : 0 < count)
    (hlt : k + count < 2 ^ 64) :
    (lifetime table count).2.rows =
      TradeIDTable.insertKey (UInt64.ofNat (k + count)).toInt64 table.rows := by
  have hlarger : UInt64.ofNat k < UInt64.ofNat (k + count) := by
    rw [UInt64.lt_iff_toNat_lt, toNat_ofNat hlt, toNat_ofNat (by omega)]
    omega
  rw [lifetime, TradeIDTable.setCurrentTradeID, h, advance_ofNat, if_pos hlarger]
  rfl

theorem startsAt_first {count : ℕ} (hcount : 0 < count) (hlt : count < 2 ^ 64) :
    StartsAt (lifetime .empty count).2 count := by
  refine ⟨[], ?_⟩
  rw [rows_lifetime (k := 0) rfl hcount (by omega), Nat.zero_add]
  rfl

/-- The first row outlasts a later lifetime, unless the new one is the first past
`2^63`, which the signed column puts before all others. -/
theorem startsAt_lifetime {table : TradeIDTable} {k count : ℕ} (h : StartsAt table k)
    (hcount : 0 < count) (hlt : k + count < 2 ^ 64) :
    StartsAt (lifetime table count).2
      (if k < 2 ^ 63 ∧ 2 ^ 63 ≤ k + count then k + count else k) := by
  have hrows' := rows_lifetime (getCurrentTradeID_of_startsAt h) hcount hlt
  obtain ⟨rows, hrows⟩ := h
  have hfirst := toInt64_lt_iff (a := k) (b := k + count) (by omega) hlt
  rw [hrows, TradeIDTable.insertKey] at hrows'
  by_cases hwraps : k < 2 ^ 63 ∧ 2 ^ 63 ≤ k + count
  · rw [if_pos (hfirst.mpr hwraps)] at hrows'
    rw [if_pos hwraps]
    exact ⟨_, hrows'⟩
  · rw [if_neg (mt hfirst.mp hwraps)] at hrows'
    rw [if_neg hwraps]
    split_ifs at hrows'
    · exact ⟨_, hrows'⟩
    · exact ⟨_, hrows'⟩

/-- Two lifetimes that start from the same row draw the same first id. -/
theorem not_nodup_of_startsAt {table : TradeIDTable} {k count count' : ℕ} {counts : List ℕ}
    (h : StartsAt table k) (h' : StartsAt (lifetime table count).2 k) (hcount : 0 < count)
    (hcount' : 0 < count') : ¬(lifetimes table (count :: count' :: counts)).Nodup := by
  have hmem {n : ℕ} (hn : 0 < n) :
      UInt64.ofNat (k + 1) ∈ (List.range' (k + 1) n).map UInt64.ofNat :=
    List.mem_map_of_mem (List.mem_range'_1.mpr ⟨le_rfl, by omega⟩)
  rw [lifetimes, lifetimes, ids_of_getCurrentTradeID (getCurrentTradeID_of_startsAt h),
    ids_of_getCurrentTradeID (getCurrentTradeID_of_startsAt h')]
  intro hnodup
  exact (List.nodup_append.mp hnodup).2.2 _ (hmem hcount) _
    (List.mem_append_left _ (hmem hcount')) rfl

/-- At most two lifetimes draw ids, or three where the second leaves the first
row past `2^63`, and the counter never comes round. -/
def DrawsFresh (counts : List ℕ) : Prop :=
  counts.sum ≤ 2 ^ 64 ∧
    ((counts.filter (0 < ·)).length ≤ 2 ∨
      ∃ first second third, counts.filter (0 < ·) = [first, second, third] ∧
        first < 2 ^ 63 ∧ 2 ^ 63 ≤ first + second)

/-- The ids of lifetimes that each start where the one before stopped. -/
theorem map_range'_append (k a b : ℕ) :
    (List.range' (k + 1) a).map UInt64.ofNat ++ (List.range' (k + a + 1) b).map UInt64.ofNat =
      (List.range' (k + 1) (a + b)).map UInt64.ofNat := by
  rw [← List.map_append, Nat.add_right_comm k a 1, ← List.range'_append_1]

theorem nodup_of_pos {counts : List ℕ} (hpos : ∀ n ∈ counts, 0 < n)
    (hsum : counts.sum ≤ 2 ^ 64) :
    (lifetimes .empty counts).Nodup ↔
      counts.length ≤ 2 ∨ ∃ first second third, counts = [first, second, third] ∧
        first < 2 ^ 63 ∧ 2 ^ 63 ≤ first + second := by
  have hids (a : ℕ) : (lifetime .empty a).1 = (List.range' 1 a).map UInt64.ofNat :=
    ids_of_getCurrentTradeID (k := 0) rfl a
  match counts with
  | [] => simp [lifetimes]
  | [a] =>
      refine iff_of_true ?_ (Or.inl (by simp))
      rw [lifetimes, lifetimes, List.append_nil, hids]
      exact nodup_map_ofNat (by simpa using hsum)
  | a :: b :: counts =>
      have ha : 0 < a := hpos a (by simp)
      have hb : 0 < b := hpos b (by simp)
      simp only [List.sum_cons] at hsum
      have hstart : StartsAt (lifetime .empty a).2 a := startsAt_first ha (by omega)
      have hsecond := ids_of_getCurrentTradeID (getCurrentTradeID_of_startsAt hstart) b
      have htwo := map_range'_append 0 a b
      rw [Nat.zero_add, Nat.zero_add] at htwo
      match counts with
      | [] =>
          refine iff_of_true ?_ (Or.inl (by simp))
          rw [lifetimes, lifetimes, lifetimes, List.append_nil, hids, hsecond, htwo]
          exact nodup_map_ofNat (by omega)
      | c :: counts =>
          have hc : 0 < c := hpos c (by simp)
          rw [List.sum_cons] at hsum
          have hnext := startsAt_lifetime hstart hb (by omega)
          by_cases hwraps : a < 2 ^ 63 ∧ 2 ^ 63 ≤ a + b
          · rw [if_pos hwraps] at hnext
            match counts with
            | [] =>
                refine iff_of_true ?_ (Or.inr ⟨a, b, c, rfl, hwraps⟩)
                have hthird :=
                  ids_of_getCurrentTradeID (getCurrentTradeID_of_startsAt hnext) c
                have hthree := map_range'_append 0 (a + b) c
                rw [Nat.zero_add, Nat.zero_add] at hthree
                rw [lifetimes, lifetimes, lifetimes, lifetimes, List.append_nil, hids, hsecond,
                  hthird, ← List.append_assoc, htwo, hthree]
                exact nodup_map_ofNat (by simpa [Nat.add_assoc] using hsum)
            | d :: counts =>
                have hd : 0 < d := hpos d (by simp)
                rw [List.sum_cons] at hsum
                have hlast := startsAt_lifetime hnext hc (by omega)
                rw [if_neg (by omega)] at hlast
                refine iff_of_false (fun hnodup => ?_) (by simp)
                rw [lifetimes, lifetimes] at hnodup
                exact not_nodup_of_startsAt hnext hlast hc hd
                  (List.nodup_append.mp (List.nodup_append.mp hnodup).2.1).2.1
          · rw [if_neg hwraps] at hnext
            refine iff_of_false (fun hnodup => ?_) ?_
            · rw [lifetimes] at hnodup
              exact not_nodup_of_startsAt hstart hnext hb hc (List.nodup_append.mp hnodup).2.1
            · rintro (hlength | ⟨a', b', c', heq, hwraps'⟩)
              · simp at hlength
              · simp only [List.cons.injEq] at heq
                obtain ⟨rfl, rfl, rfl, rfl⟩ := heq
                exact hwraps hwraps'

/-- Over a new database all ids are distinct exactly when no lifetime starts from
a row that an earlier one started from, and the counter does not come round. -/
theorem lifetimes_nodup_iff (counts : List ℕ) :
    (lifetimes .empty counts).Nodup ↔ DrawsFresh counts := by
  have hpos : ∀ n ∈ counts.filter (0 < ·), 0 < n := fun n hn => by
    simpa using (List.mem_filter.mp hn).2
  have hsum : (counts.filter (0 < ·)).sum = counts.sum := by
    rw [← length_lifetimes .empty, lifetimes_filter, length_lifetimes]
  constructor
  · intro hnodup
    have hle : counts.sum ≤ 2 ^ 64 := by
      rw [← length_lifetimes .empty]
      exact length_le_of_nodup hnodup
    rw [← lifetimes_filter, nodup_of_pos hpos (hsum.trans_le hle)] at hnodup
    exact ⟨hle, hnodup⟩
  · rintro ⟨hle, hfresh⟩
    rw [← lifetimes_filter, nodup_of_pos hpos (hsum.trans_le hle)]
    exact hfresh

/-- The third lifetime starts from the row that the first one saved. -/
theorem third_lifetime_repeats :
    lifetimes .empty [2, 1, 1] = [1, 2, 3, 3] ∧ ¬(lifetimes .empty [2, 1, 1]).Nodup := by
  decide

end TradeIDGenerator

end BetaTrader
