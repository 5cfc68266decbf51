import BetaTrader.Exchange.Execution
import BetaTrader.Exchange.TradeLedger

/-!
# The orders table and the order manager

The queued tasks, executed from an empty table, should leave the registered
orders as its rows.  Each task changes the row of one order only, so the table
is compared with the order manager id by id.
-/

namespace BetaTrader

variable {P : Type}

/-! ## Tables as maps -/

namespace OrderRow

/-- The row after `UPDATE` with the contents of an order. -/
def updated (row : OrderRow P) (order : Order P) : OrderRow P :=
  { row with remainingQuantity := order.remainingQuantity.toInt64, status := order.status }

/-- The row shows the order as it is. -/
structure Shows (row : OrderRow P) (order : Order P) : Prop where
  coreOrderId : row.coreOrderId = order.coreOrderId.toInt64
  price : row.price = order.price
  originalQuantity : row.originalQuantity = order.originalQuantity.toInt64
  remainingQuantity : row.remainingQuantity = order.remainingQuantity.toInt64
  status : row.status = order.status

@[simp] theorem ofOrder_coreOrderId (order : Order P) :
    (ofOrder order).coreOrderId = order.coreOrderId.toInt64 := rfl

theorem shows_ofOrder (order : Order P) : (ofOrder order).Shows order :=
  ⟨rfl, rfl, rfl, rfl, rfl⟩

end OrderRow

theorem OrderID.toInt64_inj {id id' : OrderID} : id.toInt64 = id'.toInt64 ↔ id = id' :=
  ⟨fun h => by simpa using congrArg Int64.toUInt64 h, congrArg UInt64.toInt64⟩

/-- What a task makes of the row of the order `id`. -/
def DatabaseTask.act (id : OrderID) (row : Option (OrderRow P)) :
    DatabaseTask P → Option (OrderRow P)
  | .saveOrder order =>
      if order.coreOrderId = id then row.or (some (.ofOrder order)) else row
  | .updateOrder order =>
      if order.coreOrderId = id then row.map fun r => r.updated order else row
  | .removeOrder id' => if id' = id then none else row
  | .addTrade _ => row

namespace OrderTable

/-- The row of the order `id`. -/
def lookup (table : OrderTable P) (id : OrderID) : Option (OrderRow P) :=
  table.find? fun row => row.coreOrderId = id.toInt64

theorem coreOrderId_of_lookup {table : OrderTable P} {id : OrderID} {row : OrderRow P}
    (h : table.lookup id = some row) : row.coreOrderId = id.toInt64 := by
  simpa using List.find?_some h

theorem lookup_of_mem {table : OrderTable P}
    (hnodup : (table.map OrderRow.coreOrderId).Nodup) {row : OrderRow P} (hrow : row ∈ table)
    {id : OrderID} (hid : row.coreOrderId = id.toInt64) : table.lookup id = some row := by
  cases hlookup : table.lookup id with
  | none => exact (List.find?_eq_none.mp hlookup row hrow (by simpa using hid)).elim
  | some row' =>
      congr 1
      exact List.inj_on_of_nodup_map hnodup (List.mem_of_find?_eq_some hlookup) hrow
        ((coreOrderId_of_lookup hlookup).trans hid.symm)

theorem hasKey_iff {table : OrderTable P} {id : OrderID} :
    table.hasKey id.toInt64 = true ↔ ∃ row, table.lookup id = some row := by
  rw [hasKey, ← Option.isSome_iff_exists, lookup, List.find?_isSome]
  simp

theorem lookup_insert (table : OrderTable P) (row : OrderRow P) (id : OrderID) :
    (table.insert row).lookup id =
      if row.coreOrderId = id.toInt64 then (table.lookup id).or (some row)
      else table.lookup id := by
  by_cases hkey : table.hasKey row.coreOrderId = true
  · rw [insert, if_pos hkey]
    split_ifs with hid
    · obtain ⟨old, hold⟩ := hasKey_iff.mp (hid ▸ hkey)
      rw [hold]
      rfl
    · rfl
  · rw [insert, if_neg hkey, lookup, List.find?_append]
    split_ifs with hid <;> simp [lookup, hid]

theorem lookup_update (table : OrderTable P) (order : Order P) (id : OrderID) :
    (table.execute (.updateOrder order)).lookup id =
      if order.coreOrderId = id then (table.lookup id).map fun row => row.updated order
      else table.lookup id := by
  have hupdate : table.execute (.updateOrder order) = table.map fun row =>
      if row.coreOrderId = order.coreOrderId.toInt64 then row.updated order else row := rfl
  have hkeep : ((fun row : OrderRow P => decide (row.coreOrderId = id.toInt64)) ∘ fun row =>
      if row.coreOrderId = order.coreOrderId.toInt64 then row.updated order else row) =
        fun row => decide (row.coreOrderId = id.toInt64) := by
    funext row
    simp only [Function.comp]
    split_ifs <;> rfl
  rw [hupdate, lookup, List.find?_map, hkeep, ← lookup]
  cases hlookup : table.lookup id with
  | none => split_ifs <;> rfl
  | some row =>
      have hid : row.coreOrderId = order.coreOrderId.toInt64 ↔ order.coreOrderId = id := by
        rw [coreOrderId_of_lookup hlookup, OrderID.toInt64_inj, eq_comm]
      simp only [Option.map_some, hid]
      split_ifs <;> rfl

theorem lookup_delete (table : OrderTable P) (id' id : OrderID) :
    (table.delete id'.toInt64).lookup id = if id' = id then none else table.lookup id := by
  rw [delete, lookup, List.find?_filter]
  split_ifs with hid
  · rw [List.find?_eq_none]
    intro row _
    simp [hid]
  · rw [lookup]
    congr 1
    funext row
    by_cases hrow : row.coreOrderId = id.toInt64
    · simp [hrow, OrderID.toInt64_inj, Ne.symm hid]
    · simp [hrow]

/-- A task changes the row of its own order only. -/
theorem lookup_execute (table : OrderTable P) (task : DatabaseTask P) (id : OrderID) :
    (table.execute task).lookup id = task.act id (table.lookup id) := by
  cases task with
  | saveOrder order =>
      rw [execute, lookup_insert, OrderRow.ofOrder_coreOrderId, DatabaseTask.act]
      simp only [OrderID.toInt64_inj]
  | updateOrder order => exact lookup_update table order id
  | removeOrder id' => exact lookup_delete table id' id
  | addTrade trade => rfl

theorem lookup_executeAll (table : OrderTable P) (tasks : List (DatabaseTask P)) (id : OrderID) :
    (table.executeAll tasks).lookup id =
      tasks.foldl (fun row task => task.act id row) (table.lookup id) := by
  induction tasks generalizing table with
  | nil => rfl
  | cons task tasks ih => rw [executeAll_cons, ih, lookup_execute, List.foldl_cons]

theorem nodup_execute {table : OrderTable P} (h : (table.map OrderRow.coreOrderId).Nodup)
    (task : DatabaseTask P) : ((table.execute task).map OrderRow.coreOrderId).Nodup := by
  cases task with
  | saveOrder order =>
      rw [execute, insert]
      split_ifs with hkey
      · exact h
      · rw [List.map_append, List.nodup_append]
        refine ⟨h, List.nodup_singleton _, ?_⟩
        rintro key hmem _ hnew rfl
        obtain ⟨row, hrow, rfl⟩ := List.mem_map.mp hmem
        exact hkey (List.any_eq_true.mpr ⟨row, hrow,
          decide_eq_true (List.mem_singleton.mp hnew)⟩)
  | updateOrder order =>
      have hkeys : (table.execute (.updateOrder order)).map OrderRow.coreOrderId =
          table.map OrderRow.coreOrderId := by
        rw [execute, update, List.map_map]
        refine List.map_congr_left fun row _ => ?_
        simp only [Function.comp]
        split_ifs <;> rfl
      rw [hkeys]
      exact h
  | removeOrder id' => exact h.sublist (List.filter_sublist.map _)
  | addTrade trade => exact h

theorem nodup_executeAll {table : OrderTable P} (h : (table.map OrderRow.coreOrderId).Nodup)
    (tasks : List (DatabaseTask P)) :
    ((table.executeAll tasks).map OrderRow.coreOrderId).Nodup := by
  induction tasks generalizing table with
  | nil => exact h
  | cons task tasks ih => exact ih (nodup_execute h task)

/-- A row after a task is an old one, or it has been made from an order. -/
theorem mem_execute {table : OrderTable P} {task : DatabaseTask P} {row : OrderRow P}
    (h : row ∈ table.execute task) :
    (∃ row' ∈ table, row.coreOrderId = row'.coreOrderId ∧ row.clientId = row'.clientId) ∨
      ∃ order, task = .saveOrder order ∧ row = .ofOrder order := by
  cases task with
  | saveOrder order =>
      rw [execute, insert] at h
      split_ifs at h
      · exact Or.inl ⟨row, h, rfl, rfl⟩
      · rcases List.mem_append.mp h with h | h
        · exact Or.inl ⟨row, h, rfl, rfl⟩
        · exact Or.inr ⟨order, rfl, List.mem_singleton.mp h⟩
  | updateOrder order =>
      obtain ⟨row', hrow', rfl⟩ := List.mem_map.mp h
      refine Or.inl ⟨row', hrow', ?_⟩
      split_ifs <;> exact ⟨rfl, rfl⟩
  | removeOrder orderId => exact Or.inl ⟨row, (List.mem_filter.mp h).1, rfl, rfl⟩
  | addTrade trade => exact Or.inl ⟨row, h, rfl, rfl⟩

/-- The rows of the table are exactly the registered orders. -/
structure Mirrors (table : OrderTable P) (manager : OrderManager P) : Prop where
  nodup : (table.map OrderRow.coreOrderId).Nodup
  rows : ∀ row ∈ table, ∃ id order, manager.orderMap id = some order ∧ row.Shows order
  orders : ∀ id order, manager.orderMap id = some order → ∃ row ∈ table, row.Shows order

theorem mirrors_iff {table : OrderTable P} {manager : OrderManager P}
    (hnodup : (table.map OrderRow.coreOrderId).Nodup)
    (hids : ∀ id order, manager.orderMap id = some order → order.coreOrderId = id) :
    table.Mirrors manager ↔
      ∀ id, Option.Rel OrderRow.Shows (table.lookup id) (manager.orderMap id) := by
  constructor
  · intro h id
    cases horder : manager.orderMap id with
    | some order =>
        obtain ⟨row, hrow, hshows⟩ := h.orders id order horder
        rw [lookup_of_mem hnodup hrow (hids id order horder ▸ hshows.coreOrderId)]
        exact Option.Rel.some hshows
    | none =>
        cases hlookup : table.lookup id with
        | none => exact Option.Rel.none
        | some row =>
            obtain ⟨id', order, horder', hshows⟩ :=
              h.rows row (List.mem_of_find?_eq_some hlookup)
            have hid : id' = id := by
              rw [← hids id' order horder', ← OrderID.toInt64_inj, ← hshows.coreOrderId,
                coreOrderId_of_lookup hlookup]
            simp [← hid, horder'] at horder
  · intro h
    refine ⟨hnodup, fun row hrow => ?_, fun id order horder => ?_⟩
    · have hkey : row.coreOrderId = row.coreOrderId.toUInt64.toInt64 := by simp
      have hrel := h row.coreOrderId.toUInt64
      rw [lookup_of_mem hnodup hrow hkey] at hrel
      obtain ⟨order, horder, hshows⟩ := Lists.exists_of_some_rel hrel
      exact ⟨_, order, horder, hshows⟩
    · have hrel := h id
      rw [horder] at hrel
      obtain ⟨row, hlookup, hshows⟩ := Lists.exists_of_rel_some hrel
      exact ⟨row, List.mem_of_find?_eq_some hlookup, hshows⟩

end OrderTable

/-- The database tasks queued by an event. -/
def Event.tasks : Event P → List (DatabaseTask P)
  | .enqueued task => [task]
  | _ => []

/-- What an event makes of the row of the order `id`. -/
def Event.act (id : OrderID) (row : Option (OrderRow P)) (event : Event P) :
    Option (OrderRow P) :=
  event.tasks.foldl (fun row task => task.act id row) row

namespace Partition

open Matcher

/-- The database tasks queued so far. -/
def tasks (s : Partition P) : List (DatabaseTask P) := s.journal.flatMap Event.tasks

/-- The orders table once all queued tasks have been executed. -/
def table (s : Partition P) : OrderTable P := OrderTable.executeAll [] s.tasks

theorem nodup_table (s : Partition P) : (s.table.map OrderRow.coreOrderId).Nodup := by
  have hnil : (([] : OrderTable P).map OrderRow.coreOrderId).Nodup := List.nodup_nil
  exact OrderTable.nodup_executeAll hnil s.tasks

/-- The table shows the registered orders. -/
def Mirrored (s : Partition P) : Prop := s.table.Mirrors s.orderManager

/-- What a booking makes of the row of one of its orders. -/
def settleRow (order : Order P) (row : Option (OrderRow P)) : Option (OrderRow P) :=
  if order.remainingQuantity = 0 then none else row.map fun r => r.updated order

section Rows

variable {s s' : Partition P} {order served : Order P} {cmd : Command P} {clock : Clock}
  {id : OrderID}

theorem lookup_table {events : List (Event P)} (hjournal : s'.journal = s.journal ++ events)
    (id : OrderID) : s'.table.lookup id = events.foldl (Event.act id) (s.table.lookup id) := by
  rw [table, tasks, hjournal, List.flatMap_append, OrderTable.executeAll_append,
    OrderTable.lookup_executeAll, List.foldl_flatMap]
  rfl

theorem act_cancelEvents (clock : Clock) (id' id : OrderID) (row : Option (OrderRow P)) :
    (s.cancelEvents clock id').foldl (Event.act id) row = row := by
  refine Lists.foldl_eq_self (fun event hevent _ => ?_) row
  rw [cancelEvents] at hevent
  split_ifs at hevent
  · obtain ⟨_, _, rfl⟩ := Option.map_eq_some_iff.mp (Option.mem_toList.mp hevent)
    rfl
  · exact (List.not_mem_nil hevent).elim

/-- A cancelled order loses its row. -/
theorem lookup_cancelled (id' : OrderID) : (((s.cancelled clock id').publish
    (.execution order "CANCELED")).retire id').table.lookup id =
      if id = id' then none else s.table.lookup id := by
  rw [lookup_table cancelled_journal, List.foldl_append, act_cancelEvents]
  by_cases hid : id = id'
  · simp [Event.act, Event.tasks, DatabaseTask.act, hid]
  · simp [Event.act, Event.tasks, DatabaseTask.act, hid, Ne.symm hid]

theorem act_bookedEvents {trade : Trade P} {buyOrder sellOrder : Order P}
    (hne : buyOrder.coreOrderId ≠ sellOrder.coreOrderId) (id : OrderID)
    (row : Option (OrderRow P)) :
    (bookedEvents trade buyOrder sellOrder).foldl (Event.act id) row =
      if buyOrder.coreOrderId = id then settleRow buyOrder row
      else if sellOrder.coreOrderId = id then settleRow sellOrder row
      else row := by
  by_cases hid : buyOrder.coreOrderId = id
  · subst hid
    by_cases hbuy : buyOrder.remainingQuantity = 0 <;>
      by_cases hsell : sellOrder.remainingQuantity = 0 <;>
      simp [bookedEvents, filledAmong, settleRow, Event.act, Event.tasks, DatabaseTask.act, hbuy,
        hsell, hne.symm]
  · by_cases hbuy : buyOrder.remainingQuantity = 0 <;>
      by_cases hsell : sellOrder.remainingQuantity = 0 <;>
      by_cases hid' : sellOrder.coreOrderId = id <;>
      simp [bookedEvents, filledAmong, settleRow, Event.act, Event.tasks, DatabaseTask.act, hbuy,
        hsell, hid, hid']

theorem act_fillEvents {f : Order P × ℕ} (hne : served.coreOrderId ≠ f.1.coreOrderId)
    (trade : Trade P) (id : OrderID) (row : Option (OrderRow P)) :
    (fillEvents served f trade).foldl (Event.act id) row =
      if served.coreOrderId = id then settleRow served row
      else if f.1.coreOrderId = id then settleRow (f.1.giveFill f.2) row
      else row := by
  have hne' : served.coreOrderId ≠ (f.1.giveFill f.2).coreOrderId := hne
  by_cases hside : served.side = .buy
  · rw [fillEvents, buyer, seller, if_pos hside, if_pos hside, act_bookedEvents hne']
    rfl
  · rw [fillEvents, buyer, seller, if_neg hside, if_neg hside, act_bookedEvents hne'.symm]
    by_cases hid : served.coreOrderId = id
    · have hid' : (f.1.giveFill f.2).coreOrderId ≠ id := fun heq => hne' (hid.trans heq.symm)
      rw [if_neg hid', if_pos hid, if_pos hid]
    · rw [if_neg hid, if_neg hid]
      rfl

/-- The row of `id` after the booking of a list of fills. -/
def settleRows (served : Order P) (id : OrderID) (fs : List (Order P × ℕ))
    (row : Option (OrderRow P)) : Option (OrderRow P) :=
  fs.foldl (fun row f =>
    if served.coreOrderId = id then settleRow served row
    else if f.1.coreOrderId = id then settleRow (f.1.giveFill f.2) row
    else row) row

theorem act_bookingEvents (cmd : Command P) {fs : List (Order P × ℕ)}
    (hne : served.coreOrderId ∉ touchedIds fs) {trades : List (Trade P)}
    (hlength : fs.length ≤ trades.length) (id : OrderID) (row : Option (OrderRow P)) :
    (bookingEvents (postEvents cmd) served fs trades).foldl (Event.act id) row =
      settleRows served id (bookedFills served fs) row := by
  have hpost : ∀ trade row, (postEvents cmd trade).foldl (Event.act id) row = row := by
    cases cmd <;> exact fun _ _ => rfl
  have hbooked := bookedFills_prefix_self served fs
  have hzip : ((bookedFills served fs).zip trades).map Prod.fst = bookedFills served fs :=
    List.map_fst_zip (hbooked.length_le.trans hlength)
  rw [bookingEvents, List.foldl_append, List.foldl_flatMap, List.foldl_flatMap,
    Lists.foldl_eq_self fun trade _ row => hpost trade row, settleRows]
  conv_rhs => rw [← hzip, List.foldl_map]
  refine List.foldl_ext _ _ _ fun row p hp => ?_
  have hmem : p.1 ∈ fs := hbooked.subset (hzip ▸ List.mem_map_of_mem hp)
  have hne' : served.coreOrderId ≠ p.1.1.coreOrderId := fun heq =>
    hne (heq ▸ List.mem_map_of_mem hmem)
  rw [List.foldl_append, hpost, act_fillEvents hne']

theorem settleRow_settleRow (order : Order P) (row : Option (OrderRow P)) :
    settleRow order (settleRow order row) = settleRow order row := by
  cases row <;> by_cases h : order.remainingQuantity = 0 <;>
    simp [settleRow, h, OrderRow.updated]

theorem settleRows_incoming {fs : List (Order P × ℕ)} (hfs : fs ≠ [])
    (row : Option (OrderRow P)) :
    settleRows served served.coreOrderId fs row = settleRow served row := by
  simp only [settleRows, if_true]
  induction fs generalizing row with
  | nil => exact (hfs rfl).elim
  | cons f fs ih =>
      cases fs with
      | nil => rfl
      | cons g fs =>
          rw [List.foldl_cons, ih (by simp), settleRow_settleRow]

theorem settleRows_untouched {fs : List (Order P × ℕ)} (hid : served.coreOrderId ≠ id)
    (hfs : id ∉ touchedIds fs) (row : Option (OrderRow P)) :
    settleRows served id fs row = row := by
  refine Lists.foldl_eq_self (fun f hf row => ?_) row
  have hne : f.1.coreOrderId ≠ id := fun heq => hfs (heq ▸ List.mem_map_of_mem hf)
  rw [if_neg hid, if_neg hne]

theorem settleRows_touched {fs : List (Order P × ℕ)} (hnodup : (touchedIds fs).Nodup)
    {f : Order P × ℕ} (hf : f ∈ fs) (hid : served.coreOrderId ≠ f.1.coreOrderId)
    (row : Option (OrderRow P)) :
    settleRows served f.1.coreOrderId fs row = settleRow (f.1.giveFill f.2) row := by
  induction fs generalizing row with
  | nil => exact (List.not_mem_nil hf).elim
  | cons g fs ih =>
      rw [touchedIds_cons, List.nodup_cons] at hnodup
      rw [settleRows, List.foldl_cons, if_neg hid]
      rcases List.mem_cons.mp hf with rfl | hf
      · rw [if_pos rfl]
        exact settleRows_untouched hid hnodup.1 _
      · have hne : g.1.coreOrderId ≠ f.1.coreOrderId := fun heq =>
          hnodup.1 (heq ▸ List.mem_map_of_mem hf)
        rw [if_neg hne]
        exact ih hnodup.2 hf row

theorem act_admissionEvents [FinitePrice P] (h : s.incomingOrder cmd = some order)
    {row : Option (OrderRow P)}
    (hnew : order.coreOrderId = id → (∃ c, cmd = .newOrder c) → row = none) :
    (s.admissionEvents clock order cmd).foldl (Event.act id) row =
      if order.coreOrderId = id then some (.ofOrder order) else row := by
  cases cmd with
  | newOrder c =>
      by_cases hid : order.coreOrderId = id
      · simp [admissionEvents, Event.act, Event.tasks, DatabaseTask.act, hid, hnew hid ⟨c, rfl⟩]
      · simp [admissionEvents, Event.act, Event.tasks, DatabaseTask.act, hid]
  | cancelOrder c => simp [incomingOrder] at h
  | modifyOrder c =>
      rw [admissionEvents, List.foldl_append, act_cancelEvents]
      by_cases hid : order.coreOrderId = id <;>
        simp [Event.act, Event.tasks, DatabaseTask.act, hid]

theorem act_closingEvents [FinitePrice P] (row : Option (OrderRow P)) :
    (s.closingEvents order).foldl (Event.act id) row =
      if s.Remains order ∨ ((s.served order).openQuantity = 0 ∧ s.fills order ≠ []) ∨
        order.coreOrderId ≠ id then row else none := by
  rw [closingEvents]
  by_cases hremains : s.Remains order
  · rw [if_pos hremains, if_pos (Or.inl hremains)]
    rfl
  · by_cases hfilled : (s.served order).openQuantity = 0 ∧ s.fills order ≠ []
    · rw [if_neg hremains, if_pos hfilled, if_pos (Or.inr (Or.inl hfilled))]
      rfl
    · by_cases hid : order.coreOrderId = id <;>
        simp [hremains, hfilled, hid, Event.act, Event.tasks, DatabaseTask.act]

end Rows

/-- Booking keeps the row of a touched order in step with it. -/
theorem rel_settleRow {row : OrderRow P} {f : Order P × ℕ} (hshows : row.Shows f.1)
    (hle : f.2 ≤ f.1.openQuantity) :
    Option.Rel OrderRow.Shows (settleRow (f.1.giveFill f.2) (some row))
      (if f.2 = f.1.openQuantity then none else some (f.1.giveFill f.2)) := by
  have hopen := Order.openQuantity_giveFill hle
  have hzero : (f.1.giveFill f.2).remainingQuantity = 0 ↔ f.2 = f.1.openQuantity := by
    rw [Order.remainingQuantity_eq_zero_iff]
    omega
  simp only [settleRow, hzero]
  split_ifs
  · exact Option.Rel.none
  · exact Option.Rel.some
      ⟨hshows.coreOrderId, hshows.price, hshows.originalQuantity, rfl, rfl⟩

/-- A row that no booking updates shows more than the order has left. -/
theorem not_shows_giveFill {row : OrderRow P} {f : Order P × ℕ} (hshows : row.Shows f.1)
    (hpos : 0 < f.2) (hle : f.2 ≤ f.1.openQuantity) : ¬row.Shows (f.1.giveFill f.2) := by
  intro hshows'
  have hopen := Order.openQuantity_giveFill hle
  have hsame : (f.1.giveFill f.2).remainingQuantity = f.1.remainingQuantity :=
    OrderID.toInt64_inj.mp (hshows'.remainingQuantity.symm.trans hshows.remainingQuantity)
  rw [Order.openQuantity, hsame, ← Order.openQuantity] at hopen
  omega

section Steps

variable [FinitePrice P] {ids : List OrderID} {s s' : Partition P} {order : Order P}
  {cmd : Command P} {clock : Clock}

theorem lookup_executed (hinv : s.Invariant ids) (hcmd : Admissible ids cmd)
    (h : s.incomingOrder cmd = some order) (clock : Clock) {id : OrderID}
    (hnew : order.coreOrderId = id → (∃ c, cmd = .newOrder c) → s.table.lookup id = none) :
    (s.executed clock order cmd).table.lookup id =
      if s.Remains order ∨ ((s.served order).openQuantity = 0 ∧ s.fills order ≠ []) ∨
        order.coreOrderId ≠ id then
        settleRows (s.served order) id (bookedFills (s.served order) (s.fills order))
          (if order.coreOrderId = id then some (.ofOrder order) else s.table.lookup id)
      else none := by
  have hadmitted := hinv.prepared hcmd h clock
  have hne : (s.served order).coreOrderId ∉ touchedIds (s.fills order) := by
    rw [served_coreOrderId, ← prepared_fills hinv.sound hcmd h clock]
    exact incoming_notMem_touchedIds hadmitted.matchable
  have hlength :
      (s.fills order).length ≤ ((s.prepared clock order cmd).trades clock order).length := by
    rw [trades, length_tradesOf, prepared_fills hinv.sound hcmd h]
  have hmatched : ∀ row, Event.act id row
      (.matched ((s.prepared clock order cmd).trades clock order)) = row := fun _ => rfl
  rw [lookup_table executed_journal, List.foldl_append, List.foldl_cons, List.foldl_append,
    act_admissionEvents h hnew, hmatched, act_closingEvents]
  simp only [prepared_remains hinv.sound hcmd h, prepared_served hinv.sound hcmd h,
    prepared_fills hinv.sound hcmd h, act_bookingEvents cmd hne hlength]

/-- A limit order that finds nothing to trade with is served as it is. -/
theorem served_of_fills_nil_limit (hnil : s.fills order = []) (htype : order.orderType = .limit)
    (hopen : order.openQuantity ≠ 0) : s.served order = order := by
  have hfills : fillsOn s.orderManager order (s.otherSide order) = [] := hnil
  have hne : order.remainingQuantity ≠ 0 := fun h =>
    hopen (Order.remainingQuantity_eq_zero_iff.mp h)
  have hstatus : finalStatus order = order.status := by simp [finalStatus, htype, hne]
  rw [served, Matcher.served, hfills, afterFills_nil, hstatus]
  rfl

/-- The row of the incoming order always follows the order. -/
theorem lookup_incoming (hinv : s.Invariant ids) (hcmd : Admissible ids cmd)
    (h : s.incomingOrder cmd = some order) (clock : Clock)
    (hnew : (∃ c, cmd = .newOrder c) → s.table.lookup order.coreOrderId = none) :
    Option.Rel OrderRow.Shows ((s.executed clock order cmd).table.lookup order.coreOrderId)
      ((s.executed clock order cmd).orderManager.orderMap order.coreOrderId) := by
  rw [executed_incoming hinv.sound hcmd h clock, lookup_executed hinv hcmd h clock fun _ => hnew,
    if_pos rfl]
  have hsettle : ∀ {fs : List (Order P × ℕ)}, fs ≠ [] → ∀ row,
      settleRows (s.served order) order.coreOrderId fs row = settleRow (s.served order) row := by
    intro fs hfs row
    rw [← settleRows_incoming hfs row, served_coreOrderId]
  by_cases hremains : s.Remains order
  · have hne : (s.served order).remainingQuantity ≠ 0 := fun hzero =>
      hremains.1.ne' (Order.remainingQuantity_eq_zero_iff.mp hzero)
    rw [if_pos (Or.inl hremains), if_pos hremains, bookedFills, if_neg hne]
    by_cases hfills : s.fills order = []
    · have hopen := served_of_fills_nil hfills
      have hserved := served_of_fills_nil_limit hfills hremains.2 (by have := hremains.1; omega)
      rw [hfills, hserved]
      exact Option.Rel.some (OrderRow.shows_ofOrder order)
    · rw [hsettle hfills, settleRow, if_neg hne]
      obtain ⟨qty, status, hserved⟩ := s.served_set order
      rw [hserved]
      exact Option.Rel.some ⟨rfl, rfl, rfl, rfl, rfl⟩
  · rw [if_neg hremains]
    by_cases hfilled : (s.served order).openQuantity = 0 ∧ s.fills order ≠ []
    · have hzero := Order.remainingQuantity_eq_zero_iff.mpr hfilled.1
      have hbooked : bookedFills (s.served order) (s.fills order) ≠ [] := by
        rw [bookedFills, if_pos hzero]
        simpa using hfilled.2
      rw [if_pos (Or.inr (Or.inl hfilled)), hsettle hbooked, settleRow, if_pos hzero]
      exact Option.Rel.none
    · rw [if_neg (by simp [hremains, hfilled])]
      exact Option.Rel.none

/-- The row of an order whose fill is not booked stays as it is. -/
theorem lookup_unbooked (hinv : s.Invariant ids) (hcmd : Admissible ids cmd)
    (h : s.incomingOrder cmd = some order) (clock : Clock) {f : Order P × ℕ}
    (hf : f ∈ s.fills order) (hnot : f ∉ bookedFills (s.served order) (s.fills order)) :
    (s.executed clock order cmd).table.lookup f.1.coreOrderId =
      s.table.lookup f.1.coreOrderId := by
  have hne := (mem_fills hinv.sound hcmd h hf).2.1
  have hnotMem : f.1.coreOrderId ∉
      touchedIds (bookedFills (s.served order) (s.fills order)) := by
    intro htouched
    obtain ⟨g, hg, heq⟩ := List.mem_map.mp htouched
    have hmem := (bookedFills_prefix_self (s.served order) (s.fills order)).subset hg
    exact hnot (fills_inj hinv.sound hcmd h hmem hf heq ▸ hg)
  have hserved : (s.served order).coreOrderId ≠ f.1.coreOrderId := by
    rw [served_coreOrderId]
    exact hne.symm
  rw [lookup_executed hinv hcmd h clock fun heq => (hne heq.symm).elim,
    if_pos (Or.inr (Or.inr hne.symm)), if_neg hne.symm, settleRows_untouched hserved hnotMem]

/-- The row of another order follows it unless a fill of the order is not booked. -/
theorem lookup_other (hinv : s.Invariant ids) (hcmd : Admissible ids cmd)
    (h : s.incomingOrder cmd = some order) (clock : Clock) {id : OrderID}
    (hid : id ≠ order.coreOrderId)
    (hrow : Option.Rel OrderRow.Shows (s.table.lookup id) (s.orderManager.orderMap id)) :
    Option.Rel OrderRow.Shows ((s.executed clock order cmd).table.lookup id)
        ((s.executed clock order cmd).orderManager.orderMap id) ↔
      ∀ f ∈ s.fills order, f.1.coreOrderId = id →
        f ∈ bookedFills (s.served order) (s.fills order) := by
  have hserved : (s.served order).coreOrderId ≠ id := by
    rw [served_coreOrderId]
    exact hid.symm
  have hbooked := bookedFills_prefix_self (s.served order) (s.fills order)
  have hafter := lookup_executed hinv hcmd h clock fun heq => (hid heq.symm).elim
  rw [if_pos (Or.inr (Or.inr hid.symm)), if_neg hid.symm] at hafter
  rcases executed_other hinv.sound hcmd h clock hid with
    ⟨huntouched, hsame⟩ | ⟨f, hf, rfl, hold, hcases⟩
  · rw [hafter, hsame, settleRows_untouched hserved fun hmem =>
      huntouched ((hbooked.map _).subset hmem)]
    exact iff_of_true hrow fun f hf heq => (huntouched (heq ▸ List.mem_map_of_mem hf)).elim
  · obtain ⟨_, _, hpos, hle⟩ := mem_fills hinv.sound hcmd h hf
    rw [hold] at hrow
    obtain ⟨row, hlookup, hshows⟩ := Lists.exists_of_rel_some hrow
    by_cases hmem : f ∈ bookedFills (s.served order) (s.fills order)
    · have hsame : ∀ g ∈ s.fills order, g.1.coreOrderId = f.1.coreOrderId → g = f :=
        fun g hg heq => fills_inj hinv.sound hcmd h hg hf heq
      refine iff_of_true ?_ fun g hg heq => hsame g hg heq ▸ hmem
      have hnodup : (touchedIds (bookedFills (s.served order) (s.fills order))).Nodup :=
        (nodup_touchedIds_fills hinv.sound hcmd h).sublist (hbooked.map _).sublist
      have hsettle := rel_settleRow hshows hle
      rw [hafter, hlookup, settleRows_touched hnodup hmem hserved]
      rcases hcases with ⟨_, hall, hnone⟩ | ⟨hnot, hnew⟩
      · rw [if_pos hall] at hsettle
        rw [hnone]
        exact hsettle
      · rw [if_neg fun hall => hnot ⟨hmem, hall⟩] at hsettle
        rw [hnew]
        exact hsettle
    · refine iff_of_false ?_ fun hall => hmem (hall f hf rfl)
      rcases hcases with ⟨hbooks, _⟩ | ⟨_, hnew⟩
      · exact (hmem hbooks).elim
      · rw [lookup_unbooked hinv hcmd h clock hf hmem, hlookup, hnew, Option.rel_some_some]
        exact not_shows_giveFill hshows hpos hle

theorem mirrored_iff (hinv : s.Invariant ids) : s.Mirrored ↔
    ∀ id, Option.Rel OrderRow.Shows (s.table.lookup id) (s.orderManager.orderMap id) := by
  exact OrderTable.mirrors_iff s.nodup_table
    fun id order horder => (hinv.managed id order horder).1

/-- A command books all its trades if each of its fills is booked. -/
theorem booksAll_of_forall (hinv : s.Invariant ids) (hcmd : Admissible ids cmd)
    (h : s.incomingOrder cmd = some order)
    (hall : ∀ f ∈ s.fills order, f ∈ bookedFills (s.served order) (s.fills order)) :
    s.BooksAll cmd := by
  rw [booksAll_iff h]
  have hnodup : (s.fills order).Nodup := (nodup_touchedIds_fills hinv.sound hcmd h).of_map _
  exact (bookedFills_prefix_self _ _).eq_of_length_le (List.subperm_of_subset hnodup hall).length_le

/-- The table follows an executed order exactly when all its fills are booked. -/
theorem mirrored_executed (hinv : s.Invariant ids) (hcmd : Admissible ids cmd)
    (h : s.incomingOrder cmd = some order) (clock : Clock)
    (hrow : ∀ id, Option.Rel OrderRow.Shows (s.table.lookup id) (s.orderManager.orderMap id)) :
    (∀ id, Option.Rel OrderRow.Shows ((s.executed clock order cmd).table.lookup id)
        ((s.executed clock order cmd).orderManager.orderMap id)) ↔ s.BooksAll cmd := by
  constructor
  · intro hall
    refine booksAll_of_forall hinv hcmd h fun f hf => ?_
    have hne := (mem_fills hinv.sound hcmd h hf).2.1
    exact (lookup_other hinv hcmd h clock hne (hrow _)).mp (hall _) f hf rfl
  · intro hbooks id
    have hall := (booksAll_iff h).mp hbooks
    by_cases hid : id = order.coreOrderId
    · rw [hid]
      refine lookup_incoming hinv hcmd h clock fun hnew => ?_
      rcases incomingOrder_cases hinv.sound hcmd h with ⟨_, _, _, _, hnone, _⟩ | ⟨_, _, rfl, _⟩
      · have hrel := hrow order.coreOrderId
        rw [hnone] at hrel
        cases hlookup : s.table.lookup order.coreOrderId with
        | none => rfl
        | some row => rw [hlookup] at hrel; cases hrel
      · obtain ⟨_, heq⟩ := hnew
        cases heq
    · exact (lookup_other hinv hcmd h clock hid (hrow id)).mpr fun f hf _ => hall.symm ▸ hf

theorem mirrored_step (hinv : s.Invariant ids) (hcmd : Admissible ids cmd) (hmirrored : s.Mirrored)
    (h : processCommand clock s cmd = some s') : s'.Mirrored ↔ s.BooksAll cmd := by
  obtain ⟨s'', hs'', hinv'⟩ := processCommand_invariant hinv hcmd clock
  obtain rfl := Option.some.inj (hs''.symm.trans h)
  rw [mirrored_iff hinv] at hmirrored
  rw [mirrored_iff hinv']
  rcases processCommand_cases hinv.sound hcmd clock with
    ⟨hincoming, _, _, _, _, heq⟩ | ⟨c, order, rfl, _, _, heq⟩ | ⟨order, hincoming, heq⟩
  · obtain rfl := Option.some.inj (heq.symm.trans h)
    refine iff_of_true (fun id => ?_) (by simp [BooksAll, hincoming])
    rw [lookup_table rfl]
    exact hmirrored id
  · obtain rfl := Option.some.inj (heq.symm.trans h)
    refine iff_of_true (fun id => ?_) (by simp [BooksAll, incomingOrder])
    have hmanager : (((s.cancelled clock c.orderId).publish
        (.execution order "CANCELED")).retire c.orderId).orderManager.orderMap id =
          if id = c.orderId then none else s.orderManager.orderMap id :=
      OrderManager.removeOrderById_orderMap _ _ _
    rw [lookup_cancelled, hmanager]
    split_ifs
    · exact Option.Rel.none
    · exact hmirrored id
  · obtain rfl := Option.some.inj (heq.symm.trans h)
    exact mirrored_executed hinv hcmd hincoming clock hmirrored

end Steps

namespace Sample

/-- A buy that takes one sell and part of another. -/
def partialFill : List (Command ℚ) :=
  [submit 1 "S1" .sell .limit 3 10, submit 2 "S2" .sell .limit 4 10,
    submit 3 "B1" .buy .limit 5 10]

end Sample

end Partition

end BetaTrader
