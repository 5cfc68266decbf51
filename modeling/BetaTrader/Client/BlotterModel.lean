import BetaTrader.Common.FixUtils
import BetaTrader.Exchange.ExecutionPublisher
import BetaTrader.Lib.GeneralText
import Mathlib

/-!
# The blotter of the client

`BlotterModel` keeps a row for every open order, under the client's id, and one line
of history for every report.  A report whose key has been seen before is a duplicate.
-/

namespace BetaTrader

/-- Prices that a stream can write. -/
class StreamPrice (P : Type) where
  text : P → Message
  notMem_text : ∀ price, '|' ∉ text price

instance : StreamPrice Double where
  text := Decimal.generalText 6
  notMem_text := by
    intro price h
    rcases Decimal.numeric_of_mem_generalText h with h | h <;> exact absurd h (by decide)

instance : StreamPrice ℚ where
  text := fun price => StreamPrice.text (Double.finite price)
  notMem_text := fun price => StreamPrice.notMem_text (Double.finite price)

namespace Client

variable {P : Type}

structure OrderIntent (P : Type) where
  clientOrderId : ClientOrderID
  symbol : Instrument
  side : OrderSide
  orderType : OrderType
  price : P
  originalQuantity : Quantity

structure OrderRow (P : Type) where
  clientOrderId : ClientOrderID
  symbol : Instrument := .eurusd
  side : OrderSide := .buy
  orderType : OrderType := .limit
  orderTypeKnown : Bool := false
  price : P
  originalQuantity : Quantity := 0
  remainingQuantity : Quantity := 0
  status : OrderStatus := .new
  exchangeOrderId : OrderID := 0
  reason : String := ""
  deriving DecidableEq

structure HistoryRow (P : Type) where
  clientOrderId : ClientOrderID
  exchangeOrderId : OrderID
  symbol : Instrument
  side : OrderSide
  status : OrderStatus
  timestamp : Timestamp
  lastPrice : P
  lastQuantity : Quantity
  reason : String

/-- What a report adds to the history. -/
def HistoryRow.ofReport (report : ExecutionReport P) : HistoryRow P where
  clientOrderId := report.clientOrderId
  exchangeOrderId := report.exchangeOrderId
  symbol := report.symbol
  side := report.side
  status := report.status
  timestamp := report.transactionTime
  lastPrice := report.lastPrice
  lastQuantity := report.lastQuantity
  reason := report.text

/-- The two `std::map` and `std::unordered_set` members, and the history. -/
structure BlotterModel (P : Type) where
  mOrders : Std.ExtTreeMap ClientOrderID (OrderRow P)
  mHistory : List (HistoryRow P)
  mSeenExecutionKeys : List Message

namespace BlotterModel

open Decimal

def empty : BlotterModel P := ⟨∅, [], []⟩

def executionKey [StreamPrice P] (report : ExecutionReport P) : Message :=
  report.executionId.toList ++ '|' :: report.clientOrderId.toList ++
    '|' :: report.status.name ++ '|' :: natText report.cumulativeQuantity.toNat ++
    '|' :: natText report.leavesQuantity.toNat ++ '|' :: StreamPrice.text report.lastPrice ++
    '|' :: natText report.lastQuantity.toNat ++ '|' :: report.text.toList

section Calls

variable [Zero P] (model : BlotterModel P)

def recordOrderIntent (intent : OrderIntent P) : BlotterModel P :=
  let row := model.mOrders[intent.clientOrderId]?.getD { clientOrderId := "", price := 0 }
  { model with
    mOrders := model.mOrders.insert intent.clientOrderId
      { row with
        clientOrderId := intent.clientOrderId
        symbol := intent.symbol
        side := intent.side
        orderType := intent.orderType
        orderTypeKnown := true
        price := intent.price
        originalQuantity := intent.originalQuantity
        remainingQuantity := intent.originalQuantity
        status := .new
        reason := "" } }

/-- The row that a report about an unknown order begins with. -/
def newRow (report : ExecutionReport P) : OrderRow P where
  clientOrderId := report.clientOrderId
  symbol := report.symbol
  side := report.side
  price := report.lastPrice
  originalQuantity := report.orderQuantity

variable [DecidableEq P]

/-- The row that a report leaves of the row before. -/
def updateRow (row : OrderRow P) (report : ExecutionReport P) : OrderRow P :=
  { row with
    symbol := report.symbol
    side := report.side
    exchangeOrderId := report.exchangeOrderId
    status := report.status
    remainingQuantity := report.leavesQuantity
    originalQuantity :=
      if report.orderQuantity = 0 then row.originalQuantity else report.orderQuantity
    price := if row.orderTypeKnown = false ∧ report.lastPrice ≠ 0 then report.lastPrice
      else row.price
    reason := report.text }

variable [StreamPrice P]

/-- The report is taken for one that has been seen before. -/
def Repeats (report : ExecutionReport P) : Prop :=
  report.executionId ≠ "" ∧ executionKey report ∈ model.mSeenExecutionKeys

instance (report : ExecutionReport P) : Decidable (model.Repeats report) :=
  inferInstanceAs (Decidable (_ ∧ _))

def processExecution (report : ExecutionReport P) : BlotterModel P :=
  if model.Repeats report then model
  else
    let row := updateRow (model.mOrders[report.clientOrderId]?.getD (newRow report)) report
    { mOrders :=
        match report.status with
        | .new | .partiallyFilled => model.mOrders.insert report.clientOrderId row
        | .filled | .cancelled | .rejected => model.mOrders.erase report.clientOrderId
      mHistory := model.mHistory ++ [.ofReport report]
      mSeenExecutionKeys :=
        if report.executionId ≠ "" then executionKey report :: model.mSeenExecutionKeys
        else model.mSeenExecutionKeys }

end Calls

def activeOrders (model : BlotterModel P) : List (OrderRow P) := model.mOrders.toList.map Prod.snd

def history (model : BlotterModel P) : List (HistoryRow P) := model.mHistory

/-! ## Keys -/

section Keys

variable [StreamPrice P] {report report' : ExecutionReport P}

theorem notMem_name (status : OrderStatus) : '|' ∉ status.name := by
  cases status <;> decide

theorem name_inj {status status' : OrderStatus} (h : status.name = status'.name) :
    status = status' := by
  revert h
  cases status <;> cases status' <;> decide

theorem natText_toNat_inj {n m : Quantity} (h : natText n.toNat = natText m.toNat) : n = m := by
  have hvalue := congrArg Strtoul.value h
  rw [value_natText, value_natText] at hvalue
  exact UInt64.toNat_inj.mp hvalue

/-- The parts of a key that come after the client's id. -/
def keyParts (report : ExecutionReport P) : List Message :=
  [report.status.name, natText report.cumulativeQuantity.toNat,
    natText report.leavesQuantity.toNat, StreamPrice.text report.lastPrice,
    natText report.lastQuantity.toNat, report.text.toList]

theorem executionKey_close (report : ExecutionReport P) :
    executionKey report ++ ['|'] = report.executionId.toList ++
      '|' :: (report.clientOrderId.toList ++ '|' :: Text.close '|' (keyParts report)) := by
  simp [executionKey, keyParts]

theorem notMem_keyParts (htext : '|' ∉ report.text.toList) :
    ∀ part ∈ keyParts report, '|' ∉ part := by
  have hnumber : ∀ n, '|' ∉ natText n := FixUtils.notMem_natText (by decide)
  intro part hpart
  simp only [keyParts, List.mem_cons, List.not_mem_nil, or_false] at hpart
  rcases hpart with rfl | rfl | rfl | rfl | rfl | rfl
  · exact notMem_name report.status
  · exact hnumber _
  · exact hnumber _
  · exact StreamPrice.notMem_text report.lastPrice
  · exact hnumber _
  · exact htext

/-- Keys of reports about one order. -/
theorem executionKey_eq_iff (hid : '|' ∉ report.executionId.toList)
    (hid' : '|' ∉ report'.executionId.toList) (htext : '|' ∉ report.text.toList)
    (htext' : '|' ∉ report'.text.toList)
    (hclient : report.clientOrderId = report'.clientOrderId) :
    executionKey report = executionKey report' ↔
      report.executionId = report'.executionId ∧ keyParts report = keyParts report' := by
  have hclose : executionKey report = executionKey report' ↔
      executionKey report ++ ['|'] = executionKey report' ++ ['|'] :=
    (List.append_left_inj _).symm
  rw [hclose, executionKey_close, executionKey_close]
  constructor
  · intro h
    have hfirst := congrArg (Text.splitFirst '|') h
    rw [Text.splitFirst_append hid, Text.splitFirst_append hid'] at hfirst
    obtain ⟨heq, hrest⟩ := Prod.mk.inj (Option.some.inj hfirst)
    rw [hclient, List.append_cancel_left_eq, List.cons_inj_right] at hrest
    have hparts := congrArg (Text.pieces '|') hrest
    rw [Text.pieces_close (notMem_keyParts htext), Text.pieces_close (notMem_keyParts htext')]
      at hparts
    exact ⟨String.toList_inj.mp heq, hparts⟩
  · rintro ⟨heq, hparts⟩
    rw [heq, hclient, hparts]

theorem keyParts_eq_iff : keyParts report = keyParts report' ↔
    report.status = report'.status ∧
      report.cumulativeQuantity = report'.cumulativeQuantity ∧
      report.leavesQuantity = report'.leavesQuantity ∧
      StreamPrice.text report.lastPrice = StreamPrice.text report'.lastPrice ∧
      report.lastQuantity = report'.lastQuantity ∧ report.text = report'.text := by
  simp only [keyParts, List.cons.injEq, and_true]
  constructor
  · rintro ⟨hstatus, hcumulative, hleaves, hprice, hquantity, htext⟩
    exact ⟨name_inj hstatus, natText_toNat_inj hcumulative, natText_toNat_inj hleaves, hprice,
      natText_toNat_inj hquantity, String.toList_inj.mp htext⟩
  · rintro ⟨hstatus, hcumulative, hleaves, hprice, hquantity, htext⟩
    rw [hstatus, hcumulative, hleaves, hprice, hquantity, htext]
    simp

end Keys

/-! ## The rows -/

/-- The row of an order. -/
def find (model : BlotterModel P) (id : ClientOrderID) : Option (OrderRow P) := model.mOrders[id]?

/-- Every row stands under its own id. -/
def WellKeyed (model : BlotterModel P) : Prop :=
  ∀ id row, model.find id = some row → row.clientOrderId = id

theorem find_empty (id : ClientOrderID) : (empty : BlotterModel P).find id = none :=
  Std.ExtTreeMap.getElem?_empty

theorem wellKeyed_empty : (empty : BlotterModel P).WellKeyed := by
  intro id row h
  rw [find_empty] at h
  cases h

theorem WellKeyed.mem_activeOrders {model : BlotterModel P} (h : model.WellKeyed)
    {row : OrderRow P} : row ∈ model.activeOrders ↔ model.find row.clientOrderId = some row := by
  have hmem : ∀ id, (id, row) ∈ model.mOrders.toList ↔ model.find id = some row := fun id =>
    Std.ExtTreeMap.mem_toList_iff_getElem?_eq_some
  rw [activeOrders, List.mem_map]
  constructor
  · rintro ⟨⟨id, found⟩, hrow, heq⟩
    obtain rfl : found = row := heq
    have hfind := (hmem id).mp hrow
    rwa [← h id found hfind] at hfind
  · exact fun hrow => ⟨_, (hmem _).mpr hrow, rfl⟩

/-- The report says that nothing more will happen to the order. -/
def closes : OrderStatus → Bool
  | .new | .partiallyFilled => false
  | .filled | .cancelled | .rejected => true

section Calls

variable [Zero P] {model : BlotterModel P}

/-- The row of an order once its intent has been recorded. -/
def intendedRow (old : Option (OrderRow P)) (intent : OrderIntent P) : OrderRow P where
  clientOrderId := intent.clientOrderId
  symbol := intent.symbol
  side := intent.side
  orderType := intent.orderType
  orderTypeKnown := true
  price := intent.price
  originalQuantity := intent.originalQuantity
  remainingQuantity := intent.originalQuantity
  status := .new
  exchangeOrderId := (old.map OrderRow.exchangeOrderId).getD 0
  reason := ""

theorem find_recordOrderIntent (intent : OrderIntent P) (id : ClientOrderID) :
    (model.recordOrderIntent intent).find id =
      if id = intent.clientOrderId then
        some (intendedRow (model.find intent.clientOrderId) intent)
      else model.find id := by
  have hcompare : compare intent.clientOrderId id = .eq ↔ id = intent.clientOrderId :=
    Std.LawfulEqCmp.compare_eq_iff_eq.trans eq_comm
  simp only [recordOrderIntent, find, Std.ExtTreeMap.getElem?_insert, hcompare]
  cases model.mOrders[intent.clientOrderId]? <;> rfl

theorem WellKeyed.recordOrderIntent (h : model.WellKeyed) (intent : OrderIntent P) :
    (model.recordOrderIntent intent).WellKeyed := by
  intro id row hrow
  rw [find_recordOrderIntent] at hrow
  split_ifs at hrow with heq
  · rw [← Option.some.inj hrow, heq]
    rfl
  · exact h id row hrow

variable [DecidableEq P] [StreamPrice P] {report : ExecutionReport P}

/-- What the report makes of the row of its order. -/
def rowAfter (model : BlotterModel P) (report : ExecutionReport P) : Option (OrderRow P) :=
  if closes report.status then none
  else some (updateRow ((model.find report.clientOrderId).getD (newRow report)) report)

omit [Zero P] [DecidableEq P] in
theorem repeats_iff : model.Repeats report ↔
    report.executionId ≠ "" ∧ executionKey report ∈ model.mSeenExecutionKeys := Iff.rfl

theorem processExecution_of_repeats (h : model.Repeats report) :
    model.processExecution report = model := if_pos h

theorem find_processExecution (h : ¬model.Repeats report) (id : ClientOrderID) :
    (model.processExecution report).find id =
      if id = report.clientOrderId then model.rowAfter report else model.find id := by
  rw [processExecution, if_neg h]
  have hcompare : compare report.clientOrderId id = .eq ↔ id = report.clientOrderId :=
    Std.LawfulEqCmp.compare_eq_iff_eq.trans eq_comm
  cases hstatus : report.status <;>
    simp only [find, rowAfter, closes, hstatus, Std.ExtTreeMap.getElem?_insert,
      Std.ExtTreeMap.getElem?_erase, hcompare, Bool.false_eq_true, if_false, if_true]

theorem mHistory_processExecution (h : ¬model.Repeats report) :
    (model.processExecution report).mHistory = model.mHistory ++ [.ofReport report] := by
  rw [processExecution, if_neg h]

theorem WellKeyed.processExecution (h : model.WellKeyed) (report : ExecutionReport P) :
    (model.processExecution report).WellKeyed := by
  by_cases hrepeats : model.Repeats report
  · rwa [processExecution_of_repeats hrepeats]
  · intro id row hrow
    rw [find_processExecution hrepeats] at hrow
    split_ifs at hrow with hid
    · rw [rowAfter] at hrow
      split_ifs at hrow
      rw [← Option.some.inj hrow, hid]
      cases hold : model.find report.clientOrderId with
      | none => rfl
      | some old => exact h _ old hold
    · exact h id row hrow

/-! ## Reports, one after another -/

/-- A fresh blotter that has been given these reports. -/
def feed (reports : List (ExecutionReport P)) : BlotterModel P :=
  reports.foldl (fun model report => model.processExecution report) empty

theorem feed_concat (reports : List (ExecutionReport P)) (report : ExecutionReport P) :
    feed (reports ++ [report]) = (feed reports).processExecution report :=
  List.foldl_append

theorem wellKeyed_feed (reports : List (ExecutionReport P)) : (feed reports).WellKeyed := by
  induction reports using List.reverseRecOn with
  | nil => exact wellKeyed_empty
  | append_singleton reports report ih =>
      rw [feed_concat]
      exact ih.processExecution report

/-- The blotter after these reports. -/
def receive (model : BlotterModel P) (reports : List (ExecutionReport P)) : BlotterModel P :=
  reports.foldl (fun model report => model.processExecution report) model

theorem WellKeyed.receive (h : model.WellKeyed) (reports : List (ExecutionReport P)) :
    (model.receive reports).WellKeyed := by
  induction reports generalizing model with
  | nil => exact h
  | cons report reports ih => exact ih (h.processExecution report)

/-- Reports that close an order bring no row of it back. -/
theorem find_receive_of_closes {id : ClientOrderID} {reports : List (ExecutionReport P)}
    (hnone : model.find id = none) (hcloses : ∀ report ∈ reports, closes report.status = true) :
    (model.receive reports).find id = none := by
  induction reports generalizing model with
  | nil => exact hnone
  | cons report reports ih =>
      refine ih ?_ fun other hother => hcloses other (List.mem_cons_of_mem _ hother)
      change (model.processExecution report).find id = none
      by_cases hrepeats : model.Repeats report
      · rw [processExecution_of_repeats hrepeats]
        exact hnone
      · rw [find_processExecution hrepeats, rowAfter, if_pos (hcloses report List.mem_cons_self)]
        split_ifs
        · rfl
        · exact hnone

/-- The order is listed unless the report closes it, and then as the report says. -/
structure Lists (model : BlotterModel P) (report : ExecutionReport P) : Prop where
  listed : (∃ row ∈ model.activeOrders, row.clientOrderId = report.clientOrderId) ↔
    closes report.status = false
  shown : ∀ row ∈ model.activeOrders, row.clientOrderId = report.clientOrderId →
    row.status = report.status ∧ row.remainingQuantity = report.leavesQuantity

/-- After each of the reports the history has a line for each of them so far, and the
order is listed as the last of them says. -/
def Follows (reports : List (ExecutionReport P)) : Prop :=
  ∀ before report after, reports = before ++ report :: after →
    (feed (before ++ [report])).history = (before ++ [report]).map HistoryRow.ofReport ∧
      (feed (before ++ [report])).Lists report

theorem mem_seen_feed {reports : List (ExecutionReport P)}
    (hids : ∀ report ∈ reports, report.executionId ≠ "") {key : Message} :
    key ∈ (feed reports).mSeenExecutionKeys ↔ key ∈ reports.map executionKey := by
  induction reports using List.reverseRecOn with
  | nil => rfl
  | append_singleton reports report ih =>
      have hid : report.executionId ≠ "" := hids report (by simp)
      have hbefore := ih fun report hreport => hids report (List.mem_append_left _ hreport)
      rw [feed_concat, List.map_append, List.mem_append, ← hbefore]
      by_cases hrepeats : (feed reports).Repeats report
      · rw [processExecution_of_repeats hrepeats]
        refine (or_iff_left_of_imp fun hkey => ?_).symm
        rw [List.mem_singleton.mp hkey]
        exact hrepeats.2
      · rw [processExecution, if_neg hrepeats, if_pos hid]
        simp [or_comm]

theorem repeats_feed {reports : List (ExecutionReport P)}
    (hids : ∀ report ∈ reports, report.executionId ≠ "") (hid : report.executionId ≠ "") :
    (feed reports).Repeats report ↔ executionKey report ∈ reports.map executionKey := by
  rw [repeats_iff, mem_seen_feed hids]
  exact and_iff_right hid

theorem lists_processExecution (h : model.WellKeyed) (hrepeats : ¬model.Repeats report) :
    (model.processExecution report).Lists report := by
  have hfind : (model.processExecution report).find report.clientOrderId =
      model.rowAfter report :=
    (find_processExecution hrepeats _).trans (if_pos rfl)
  have hrow : ∀ row ∈ (model.processExecution report).activeOrders,
      row.clientOrderId = report.clientOrderId → model.rowAfter report = some row := by
    intro row hmem hid
    rw [← hfind, ← hid]
    exact (h.processExecution report).mem_activeOrders.mp hmem
  constructor
  · constructor
    · rintro ⟨row, hmem, hid⟩
      have hafter := hrow row hmem hid
      rw [rowAfter] at hafter
      split_ifs at hafter with hcloses
      exact Bool.eq_false_iff.mpr hcloses
    · intro hopen
      rw [rowAfter, if_neg (by simp [hopen])] at hfind
      have hid := (h.processExecution report) _ _ hfind
      refine ⟨_, (h.processExecution report).mem_activeOrders.mpr ?_, hid⟩
      rw [hid]
      exact hfind
  · intro row hmem hid
    have hafter := hrow row hmem hid
    rw [rowAfter] at hafter
    split_ifs at hafter
    rw [← Option.some.inj hafter]
    exact ⟨rfl, rfl⟩

theorem length_mHistory_le (reports : List (ExecutionReport P)) :
    (feed reports).mHistory.length ≤ reports.length := by
  induction reports using List.reverseRecOn with
  | nil => exact le_rfl
  | append_singleton reports report ih =>
      rw [feed_concat, List.length_append]
      by_cases hrepeats : (feed reports).Repeats report
      · rw [processExecution_of_repeats hrepeats]
        exact ih.trans (Nat.le_add_right _ _)
      · rw [mHistory_processExecution hrepeats, List.length_append]
        exact Nat.add_le_add_right ih 1

theorem Follows.of_append {reports : List (ExecutionReport P)}
    (h : Follows (reports ++ [report])) : Follows reports := by
  rintro before report' after rfl
  exact h before report' (after ++ [report]) (by simp)

/-- No report is missed exactly when no key comes twice. -/
theorem follows_iff {reports : List (ExecutionReport P)}
    (hids : ∀ report ∈ reports, report.executionId ≠ "") :
    Follows reports ↔ (reports.map executionKey).Nodup := by
  induction reports using List.reverseRecOn with
  | nil => exact iff_of_true (fun before report after h => by simp at h) List.nodup_nil
  | append_singleton reports report ih =>
      have hid : report.executionId ≠ "" := hids report (by simp)
      have hbefore : ∀ report ∈ reports, report.executionId ≠ "" := fun report hreport =>
        hids report (List.mem_append_left _ hreport)
      have hrepeats := repeats_feed hbefore hid
      rw [List.map_append, List.nodup_append]
      constructor
      · intro h
        have hnodup := (ih hbefore).mp h.of_append
        refine ⟨hnodup, List.nodup_singleton _, ?_⟩
        rintro key hkey _ hlast rfl
        obtain rfl := List.mem_singleton.mp hlast
        have hhistory := (h reports report [] (by simp)).1
        rw [feed_concat, processExecution_of_repeats (hrepeats.mpr hkey)] at hhistory
        have hlength := congrArg List.length hhistory
        have hle := length_mHistory_le reports
        rw [history, List.length_map, List.length_append, List.length_singleton] at hlength
        omega
      · rintro ⟨hnodup, _, hnew⟩
        have hfollows := (ih hbefore).mpr hnodup
        have hfresh : ¬(feed reports).Repeats report := fun h =>
          hnew _ (hrepeats.mp h) _ (List.mem_singleton_self _) rfl
        have hhistory : (feed reports).history = reports.map HistoryRow.ofReport := by
          rcases List.eq_nil_or_concat' reports with rfl | ⟨before, last, rfl⟩
          · rfl
          · exact (hfollows before last [] (by simp)).1
        intro before report' after heq
        rcases List.eq_nil_or_concat' after with rfl | ⟨after, last, rfl⟩
        · obtain ⟨rfl, hlast⟩ := List.append_inj' heq rfl
          obtain rfl := List.singleton_inj.mp hlast
          rw [feed_concat, List.map_append, history, mHistory_processExecution hfresh]
          refine ⟨congrArg (· ++ _) hhistory, ?_⟩
          exact lists_processExecution (wellKeyed_feed _) hfresh
        · have heq' : reports ++ [report] = (before ++ report' :: after) ++ [last] := by
            simpa using heq
          exact hfollows before report' after (List.append_inj' heq' rfl).1

end Calls

end BlotterModel

end Client

end BetaTrader
