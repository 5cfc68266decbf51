import BetaTrader.Client.BlotterModel
import BetaTrader.Client.FixClientSession
import BetaTrader.Lib.Lists

/-!
# An intent that comes late

`sendNewOrder` writes the order to the socket before it hands on the intent, so that
reports about the order may reach the blotter first.  The intent overwrites what they
have said.  The orders listed are those of an intent in time if a later report closes
the order, or if the earlier ones have said nothing that is lost.
-/

namespace BetaTrader

/-- The intents among the effects. -/
def FixClientEffect.intents (effects : List FixClientEffect) : List NewOrderIntent :=
  effects.filterMap fun
    | .doWrite _ => none
    | .orderIntent intent => some intent

namespace Client

namespace BlotterModel

section Reports

variable {P : Type} [Zero P] [DecidableEq P] [StreamPrice P] {model model' : BlotterModel P}

/-! ## Reports that count -/

theorem receive_cons (report : ExecutionReport P) (reports : List (ExecutionReport P)) :
    model.receive (report :: reports) = (model.processExecution report).receive reports := rfl

/-- The reports that are not taken for duplicates. -/
def fresh : BlotterModel P → List (ExecutionReport P) → List (ExecutionReport P)
  | _, [] => []
  | model, report :: reports =>
      if model.Repeats report then model.fresh reports
      else report :: (model.processExecution report).fresh reports

theorem fresh_append (before after : List (ExecutionReport P)) :
    model.fresh (before ++ after) = model.fresh before ++ (model.receive before).fresh after := by
  induction before generalizing model with
  | nil => rfl
  | cons report reports ih =>
      rw [List.cons_append, fresh, fresh, receive_cons]
      split_ifs with hrepeats
      · rw [processExecution_of_repeats hrepeats, ih]
      · rw [ih, List.cons_append]

section Keys

variable (h : model.mSeenExecutionKeys = model'.mSeenExecutionKeys)

include h

omit [Zero P] [DecidableEq P] in
theorem repeats_congr (report : ExecutionReport P) :
    model.Repeats report ↔ model'.Repeats report := by
  rw [repeats_iff, repeats_iff, h]

theorem mSeenExecutionKeys_processExecution (report : ExecutionReport P) :
    (model.processExecution report).mSeenExecutionKeys =
      (model'.processExecution report).mSeenExecutionKeys := by
  have hiff := repeats_congr h report
  by_cases hrepeats : model.Repeats report
  · rwa [processExecution_of_repeats hrepeats, processExecution_of_repeats (hiff.mp hrepeats)]
  · rw [processExecution, processExecution, if_neg hrepeats, if_neg (mt hiff.mpr hrepeats), h]

/-- Which reports count is a matter of the keys alone. -/
theorem fresh_congr (reports : List (ExecutionReport P)) :
    model.fresh reports = model'.fresh reports := by
  induction reports generalizing model model' with
  | nil => rfl
  | cons report reports ih =>
      have hiff := repeats_congr h report
      have hnext := mSeenExecutionKeys_processExecution h report
      by_cases hrepeats : model.Repeats report
      · rw [fresh, fresh, if_pos hrepeats, if_pos (hiff.mp hrepeats), ih h]
      · rw [fresh, fresh, if_neg hrepeats, if_neg (mt hiff.mpr hrepeats), ih hnext]

theorem mSeenExecutionKeys_receive (reports : List (ExecutionReport P)) :
    (model.receive reports).mSeenExecutionKeys = (model'.receive reports).mSeenExecutionKeys := by
  induction reports generalizing model model' with
  | nil => exact h
  | cons report reports ih => exact ih (mSeenExecutionKeys_processExecution h report)

end Keys

/-- What a report that counts makes of the row of its order. -/
def nextRow (old : Option (OrderRow P)) (report : ExecutionReport P) : Option (OrderRow P) :=
  if closes report.status then none else some (updateRow (old.getD (newRow report)) report)

theorem find_receive {id : ClientOrderID} {reports : List (ExecutionReport P)}
    (hreports : ∀ report ∈ reports, report.clientOrderId = id) :
    (model.receive reports).find id = (model.fresh reports).foldl nextRow (model.find id) := by
  induction reports generalizing model with
  | nil => rfl
  | cons report reports ih =>
      obtain ⟨rfl, hrest⟩ := List.forall_mem_cons.mp hreports
      rw [receive_cons, ih hrest, fresh]
      split_ifs with hrepeats
      · rw [processExecution_of_repeats hrepeats]
      · rw [find_processExecution hrepeats, if_pos rfl]
        rfl

theorem find_receive_of_ne {id id' : ClientOrderID} (hne : id' ≠ id)
    {reports : List (ExecutionReport P)}
    (hreports : ∀ report ∈ reports, report.clientOrderId = id) :
    (model.receive reports).find id' = model.find id' := by
  induction reports generalizing model with
  | nil => rfl
  | cons report reports ih =>
      obtain ⟨rfl, hrest⟩ := List.forall_mem_cons.mp hreports
      rw [receive_cons, ih hrest]
      by_cases hrepeats : model.Repeats report
      · rw [processExecution_of_repeats hrepeats]
      · rw [find_processExecution hrepeats, if_neg hne]

omit [Zero P] [DecidableEq P] [StreamPrice P] in
/-- Blotters that differ in one order at most. -/
theorem activeOrders_eq_iff (h : model.WellKeyed) (h' : model'.WellKeyed) {id : ClientOrderID}
    (hothers : ∀ id', id' ≠ id → model.find id' = model'.find id') :
    model.activeOrders = model'.activeOrders ↔ model.find id = model'.find id := by
  constructor
  · intro heq
    apply Option.ext
    intro row
    by_cases hid : row.clientOrderId = id
    · rw [← hid, ← h.mem_activeOrders, ← h'.mem_activeOrders, heq]
    · constructor
      · exact fun hrow => absurd (h id row hrow) hid
      · exact fun hrow => absurd (h' id row hrow) hid
  · intro heq
    have horders : model.mOrders = model'.mOrders := by
      apply Std.ExtTreeMap.ext_getElem?
      intro id'
      by_cases hid : id' = id
      · rw [hid]
        exact heq
      · exact hothers id' hid
    rw [activeOrders, horders, activeOrders]

end Reports

/-! ## The row of the order -/

section Values

variable {P : Type}

/-- What is known of the quantity after the reports; a report may leave it out. -/
def quantityAfter (quantity : Quantity) (reports : List (ExecutionReport P)) : Quantity :=
  reports.foldl (fun q report => if report.orderQuantity = 0 then q else report.orderQuantity)
    quantity

theorem quantityAfter_concat (quantity : Quantity) (reports : List (ExecutionReport P))
    (report : ExecutionReport P) :
    quantityAfter quantity (reports ++ [report]) =
      if report.orderQuantity = 0 then quantityAfter quantity reports else report.orderQuantity :=
  List.foldl_concat ..

theorem quantityAfter_eq (quantity : Quantity) (reports : List (ExecutionReport P)) :
    quantityAfter quantity reports =
      ((reports.filter fun report => report.orderQuantity ≠ 0).getLast?.map
        ExecutionReport.orderQuantity).getD quantity := by
  induction reports using List.reverseRecOn with
  | nil => rfl
  | append_singleton reports report ih =>
      rw [quantityAfter_concat, ih, List.filter_append]
      by_cases hzero : report.orderQuantity = 0
      · simp [hzero]
      · simp [hzero]

theorem quantityAfter_eq_iff (quantity : Quantity) (before after : List (ExecutionReport P)) :
    quantityAfter (quantityAfter quantity before) after = quantityAfter quantity after ↔
      (∃ report ∈ after, report.orderQuantity ≠ 0) ∨
        ∀ last ∈ (before.filter fun report => report.orderQuantity ≠ 0).getLast?,
          last.orderQuantity = quantity := by
  by_cases hsome : ∃ report ∈ after, report.orderQuantity ≠ 0
  · refine iff_of_true ?_ (Or.inl hsome)
    obtain ⟨report, hreport, hne⟩ := hsome
    refine Lists.foldl_eq_of_reset ⟨report, hreport, fun q q' => ?_⟩ _ _
    rw [if_neg hne, if_neg hne]
  · have hkeeps : ∀ q, quantityAfter q after = q := by
      intro q
      refine Lists.foldl_eq_self (fun report hreport q => ?_) q
      exact if_pos (not_not.mp fun hne => hsome ⟨report, hreport, hne⟩)
    rw [hkeeps, hkeeps, or_iff_right hsome, quantityAfter_eq]
    cases (before.filter fun report => report.orderQuantity ≠ 0).getLast? <;> simp

/-- A row whose type is known, after reports that leave the order open. -/
def shown (row : OrderRow P) (last : Option (ExecutionReport P)) (quantity : Quantity) :
    OrderRow P :=
  match last with
  | none => { row with originalQuantity := quantity }
  | some report =>
      { row with
        symbol := report.symbol
        side := report.side
        exchangeOrderId := report.exchangeOrderId
        status := report.status
        remainingQuantity := report.leavesQuantity
        originalQuantity := quantity
        reason := report.text }

@[simp] theorem shown_orderTypeKnown (row : OrderRow P) (last : Option (ExecutionReport P))
    (quantity : Quantity) : (shown row last quantity).orderTypeKnown = row.orderTypeKnown := by
  cases last <;> rfl

@[simp] theorem shown_originalQuantity (row : OrderRow P) (last : Option (ExecutionReport P))
    (quantity : Quantity) : (shown row last quantity).originalQuantity = quantity := by
  cases last <;> rfl

end Values

section Rows

variable {P : Type} [Zero P] [DecidableEq P] {reports before after : List (ExecutionReport P)}

theorem foldl_nextRow_of_open {row : OrderRow P} (hknown : row.orderTypeKnown = true)
    (hopen : ∀ report ∈ reports, closes report.status = false) :
    reports.foldl nextRow (some row) =
      some (shown row reports.getLast? (quantityAfter row.originalQuantity reports)) := by
  induction reports using List.reverseRecOn with
  | nil => rfl
  | append_singleton reports report ih =>
      have hlast : closes report.status = false := hopen report (by simp)
      have hbefore := ih fun r hr => hopen r (List.mem_append_left _ hr)
      rw [List.foldl_concat, hbefore, List.getLast?_concat, quantityAfter_concat, nextRow, hlast]
      cases reports.getLast? <;> simp [updateRow, shown, hknown]

/-- Where an order is closed, what was before does not matter. -/
theorem foldl_nextRow_of_closes (h : ∃ report ∈ reports, closes report.status = true)
    (old old' : Option (OrderRow P)) : reports.foldl nextRow old = reports.foldl nextRow old' := by
  obtain ⟨report, hreport, hcloses⟩ := h
  refine Lists.foldl_eq_of_reset ⟨report, hreport, fun row row' => ?_⟩ old old'
  rw [nextRow, nextRow, if_pos hcloses, if_pos hcloses]

/-- There is no row that an intent has set up. -/
def Unintended (old : Option (OrderRow P)) : Prop := ∀ row ∈ old, row.orderTypeKnown = false

theorem Unintended.nextRow {old : Option (OrderRow P)} (h : Unintended old)
    (report : ExecutionReport P) : Unintended (nextRow old report) := by
  intro row hrow
  rw [BlotterModel.nextRow] at hrow
  split_ifs at hrow
  · simp at hrow
  · rw [← Option.some.inj hrow]
    cases hold : old with
    | none => rfl
    | some found => exact h found hold

theorem Unintended.foldl {old : Option (OrderRow P)} (h : Unintended old)
    (reports : List (ExecutionReport P)) : Unintended (reports.foldl BlotterModel.nextRow old) := by
  induction reports generalizing old with
  | nil => exact h
  | cons report reports ih => exact ih (h.nextRow report)

theorem unintended_of_closes (h : ∃ report ∈ reports, closes report.status = true)
    (old : Option (OrderRow P)) : Unintended (reports.foldl nextRow old) := by
  rw [foldl_nextRow_of_closes h old none]
  have hnone : Unintended (none : Option (OrderRow P)) := by simp [Unintended]
  exact hnone.foldl reports

/-- The number that the exchange has given to the order. -/
theorem exchangeOrderId_foldl (hopen : ∀ report ∈ reports, closes report.status = false)
    (old : Option (OrderRow P)) :
    ((reports.foldl nextRow old).map OrderRow.exchangeOrderId).getD 0 =
      (reports.getLast?.map ExecutionReport.exchangeOrderId).getD
        ((old.map OrderRow.exchangeOrderId).getD 0) := by
  induction reports using List.reverseRecOn with
  | nil => rfl
  | append_singleton reports report =>
      have hlast : closes report.status = false := hopen report (by simp)
      rw [List.foldl_concat, List.getLast?_concat, nextRow, hlast]
      rfl

/-- The report says no more than the intent. -/
structure AsIntended (intent : OrderIntent P) (report : ExecutionReport P) : Prop where
  symbol : report.symbol = intent.symbol
  side : report.side = intent.side
  status : report.status = .new
  leavesQuantity : report.leavesQuantity = intent.originalQuantity
  text : report.text = ""

/-- What is lost of the reports before the intent is made good by those after it: one
of them closes the order, or the order has not been closed before, the quantity is the
intended one unless a later report says it again, and if no report follows, the last one
says no more than the intent. -/
def Agrees (intent : OrderIntent P) (before after : List (ExecutionReport P)) : Prop :=
  (∃ report ∈ after, closes report.status = true) ∨
    (∀ report ∈ before, closes report.status = false) ∧
      ((∃ report ∈ after, report.orderQuantity ≠ 0) ∨
        ∀ last ∈ (before.filter fun report => report.orderQuantity ≠ 0).getLast?,
          last.orderQuantity = intent.originalQuantity) ∧
      (after = [] → ∀ last ∈ before.getLast?, AsIntended intent last)

/-- The row after a late intent and after one in time. -/
theorem foldl_nextRow_eq_iff (old : Option (OrderRow P)) (intent : OrderIntent P) :
    after.foldl nextRow (some (intendedRow (before.foldl nextRow old) intent)) =
        after.foldl nextRow (before.foldl nextRow (some (intendedRow old intent))) ↔
      Agrees intent before after := by
  by_cases hafter : ∃ report ∈ after, closes report.status = true
  · exact iff_of_true (foldl_nextRow_of_closes hafter _ _) (Or.inl hafter)
  have hopen : ∀ report ∈ after, closes report.status = false := fun report hreport =>
    Bool.eq_false_iff.mpr fun hcloses => hafter ⟨report, hreport, hcloses⟩
  rw [Agrees, or_iff_right hafter, ← quantityAfter_eq_iff, foldl_nextRow_of_open rfl hopen]
  by_cases hbefore : ∃ report ∈ before, closes report.status = true
  · refine iff_of_false (fun heq => ?_) fun h => ?_
    · have hunknown := (unintended_of_closes hbefore (some (intendedRow old intent))).foldl after
      have hfalse := hunknown _ heq.symm
      rw [shown_orderTypeKnown] at hfalse
      cases hfalse
    · obtain ⟨report, hreport, hcloses⟩ := hbefore
      simp [h.1 report hreport] at hcloses
  have hstays : ∀ report ∈ before, closes report.status = false := fun report hreport =>
    Bool.eq_false_iff.mpr fun hcloses => hbefore ⟨report, hreport, hcloses⟩
  have hid := exchangeOrderId_foldl hstays old
  rw [foldl_nextRow_of_open rfl hstays, and_iff_right hstays,
    foldl_nextRow_of_open (shown_orderTypeKnown ..) hopen, shown_originalQuantity, Option.some_inj]
  cases hlast : after.getLast? with
  | some report =>
      have hne : after ≠ [] := by
        rintro rfl
        simp at hlast
      simp only [hne, false_implies, and_true]
      constructor
      · exact fun heq => (congrArg OrderRow.originalQuantity heq).symm
      · intro heq
        cases before.getLast? <;> simp [shown, intendedRow, heq]
  | none =>
      obtain rfl := List.getLast?_eq_none_iff.mp hlast
      simp only [true_implies]
      cases hlast' : before.getLast? with
      | none =>
          obtain rfl := List.getLast?_eq_none_iff.mp hlast'
          simp [shown, intendedRow, quantityAfter]
      | some report =>
          rw [hlast'] at hid
          simp only [Option.map_some, Option.getD_some] at hid
          have hnil : ∀ q, quantityAfter q ([] : List (ExecutionReport P)) = q := fun _ => rfl
          simp only [shown, intendedRow, hid, hnil, OrderRow.mk.injEq, true_and,
            Option.mem_some_iff, forall_eq']
          constructor
          · rintro ⟨hsymbol, hside, hquantity, hleaves, hstatus, htext⟩
            exact ⟨hquantity.symm, hsymbol.symm, hside.symm, hstatus.symm, hleaves.symm, htext.symm⟩
          · rintro ⟨hquantity, h⟩
            exact ⟨h.symbol.symm, h.side.symm, hquantity.symm, h.leavesQuantity.symm,
              h.status.symm, h.text.symm⟩

end Rows

/-! ## The callbacks of the application -/

/-- The order of an intent; `none` for a symbol that is not known. -/
def ofNewOrderIntent (intent : NewOrderIntent) : Option (OrderIntent Double) :=
  (Instrument.fromString intent.symbol.toList).map fun symbol =>
    { clientOrderId := intent.clientOrderId
      symbol := symbol
      side := if intent.side = '1' then .buy else .sell
      orderType := if intent.orderType = '1' then .market else .limit
      price := intent.price
      originalQuantity := UInt64.ofInt intent.quantity.toInt }

/-- The callback for intents passes over an unknown symbol. -/
def onOrderIntent (model : BlotterModel Double) (intent : NewOrderIntent) : BlotterModel Double :=
  (ofNewOrderIntent intent).elim model model.recordOrderIntent

inductive BlotterCall where
  | orderIntent (intent : NewOrderIntent)
  | execution (report : ExecutionReport Double)

/-- The blotter after these calls, one under the mutex after another. -/
def ofCalls (calls : List BlotterCall) : BlotterModel Double :=
  calls.foldl (fun model call =>
    match call with
    | .orderIntent intent => model.onOrderIntent intent
    | .execution report => model.processExecution report) empty

section Application

variable {model : BlotterModel Double} {intent : NewOrderIntent}
  {before after reports : List (ExecutionReport Double)}

theorem WellKeyed.onOrderIntent (h : model.WellKeyed) (intent : NewOrderIntent) :
    (model.onOrderIntent intent).WellKeyed := by
  unfold BlotterModel.onOrderIntent
  cases ofNewOrderIntent intent with
  | none => exact h
  | some order => exact h.recordOrderIntent order

theorem wellKeyed_ofCalls (calls : List BlotterCall) : (ofCalls calls).WellKeyed := by
  induction calls using List.reverseRecOn with
  | nil => exact wellKeyed_empty
  | append_singleton calls call ih =>
      rw [ofCalls, List.foldl_concat]
      cases call with
      | orderIntent intent => exact ih.onOrderIntent intent
      | execution report => exact ih.processExecution report

theorem mSeenExecutionKeys_onOrderIntent (model : BlotterModel Double) (intent : NewOrderIntent) :
    (model.onOrderIntent intent).mSeenExecutionKeys = model.mSeenExecutionKeys := by
  unfold onOrderIntent
  cases ofNewOrderIntent intent <;> rfl

/-- The intent comes between the reports, or before them all: the orders listed are the
same, and one that has been closed at last is not among them. -/
structure Commutes (model : BlotterModel Double) (intent : NewOrderIntent)
    (before after : List (ExecutionReport Double)) : Prop where
  same : (((model.receive before).onOrderIntent intent).receive after).activeOrders =
    ((model.onOrderIntent intent).receive (before ++ after)).activeOrders
  ended : ∀ last ∈ (model.fresh (before ++ after)).getLast?, closes last.status = true →
    ∀ row ∈ (((model.receive before).onOrderIntent intent).receive after).activeOrders,
      row.clientOrderId ≠ intent.clientOrderId

theorem find_onOrderIntent_of_ne {id : ClientOrderID} (hne : id ≠ intent.clientOrderId) :
    (model.onOrderIntent intent).find id = model.find id := by
  unfold onOrderIntent
  cases horder : ofNewOrderIntent intent with
  | none => rfl
  | some order =>
      obtain ⟨symbol, _, rfl⟩ := Option.map_eq_some_iff.mp horder
      exact (find_recordOrderIntent _ id).trans (if_neg hne)

theorem find_onOrderIntent (model : BlotterModel Double) (intent : NewOrderIntent) :
    (model.onOrderIntent intent).find intent.clientOrderId =
      (ofNewOrderIntent intent).elim (model.find intent.clientOrderId) fun order =>
        some (intendedRow (model.find intent.clientOrderId) order) := by
  unfold onOrderIntent
  cases horder : ofNewOrderIntent intent with
  | none => rfl
  | some order =>
      obtain ⟨symbol, _, rfl⟩ := Option.map_eq_some_iff.mp horder
      exact (find_recordOrderIntent _ _).trans (if_pos rfl)

/-- A report that closes the order leaves it without a row. -/
theorem find_receive_of_last
    (hreports : ∀ report ∈ reports, report.clientOrderId = intent.clientOrderId)
    {last : ExecutionReport Double} (hlast : last ∈ (model.fresh reports).getLast?)
    (hcloses : closes last.status = true) :
    (model.receive reports).find intent.clientOrderId = none := by
  obtain ⟨earlier, hfresh⟩ := List.getLast?_eq_some_iff.mp hlast
  rw [find_receive hreports, hfresh, List.foldl_concat, nextRow, if_pos hcloses]

/-- Only the order's own row can tell a late intent from one in time. -/
theorem commutes_iff_find (h : model.WellKeyed)
    (hbefore : ∀ report ∈ before, report.clientOrderId = intent.clientOrderId)
    (hafter : ∀ report ∈ after, report.clientOrderId = intent.clientOrderId) :
    Commutes model intent before after ↔
      (((model.receive before).onOrderIntent intent).receive after).find intent.clientOrderId =
        ((model.onOrderIntent intent).receive (before ++ after)).find intent.clientOrderId := by
  have hreports : ∀ report ∈ before ++ after, report.clientOrderId = intent.clientOrderId :=
    List.forall_mem_append.mpr ⟨hbefore, hafter⟩
  have hlate := ((h.receive before).onOrderIntent intent).receive after
  have hearly := (h.onOrderIntent intent).receive (before ++ after)
  have hothers : ∀ id, id ≠ intent.clientOrderId →
      (((model.receive before).onOrderIntent intent).receive after).find id =
        ((model.onOrderIntent intent).receive (before ++ after)).find id := by
    intro id hne
    rw [find_receive_of_ne hne hafter, find_receive_of_ne hne hreports,
      find_onOrderIntent_of_ne hne, find_onOrderIntent_of_ne hne, find_receive_of_ne hne hbefore]
  have hsame := activeOrders_eq_iff hlate hearly hothers
  constructor
  · exact fun h => hsame.mp h.same
  · intro hfind
    refine ⟨hsame.mpr hfind, fun last hlast hcloses row hrow hid => ?_⟩
    rw [fresh_congr (mSeenExecutionKeys_onOrderIntent model intent).symm] at hlast
    have hnone := find_receive_of_last hreports hlast hcloses
    rw [hlate.mem_activeOrders, hid, hfind, hnone] at hrow
    cases hrow

/-- For every order that has been sent, and wherever its intent comes between the
reports about it: the orders listed are those of an intent in time if and only if the
reports that the intent overwrites have said nothing that is lost. -/
theorem commutes_iff (calls : List BlotterCall) (session : FixClientSession) (symbol : String)
    (side : Char) (price : Double) (qty : Int32) (type tif : Char)
    (now transactTime sendingTime : Timestamp) :
    ∀ intent ∈ FixClientEffect.intents
        (session.sendNewOrder symbol side price qty type tif now transactTime sendingTime).2,
      ∀ before after : List (ExecutionReport Double),
        (∀ report ∈ before ++ after, report.clientOrderId = intent.clientOrderId) →
          (Commutes (ofCalls calls) intent before after ↔
            ∀ order, ofNewOrderIntent intent = some order →
              Agrees order ((ofCalls calls).fresh before)
                (((ofCalls calls).receive before).fresh after)) := by
  intro intent _ before after hreports
  obtain ⟨hbefore, hafter⟩ := List.forall_mem_append.mp hreports
  have hkeyed := wellKeyed_ofCalls calls
  generalize ofCalls calls = model at hkeyed ⊢
  have hkeys := mSeenExecutionKeys_onOrderIntent model intent
  have hkeys' := mSeenExecutionKeys_onOrderIntent (model.receive before) intent
  rw [commutes_iff_find hkeyed hbefore hafter, find_receive hafter, find_receive hreports,
    fresh_append, List.foldl_append, fresh_congr hkeys, fresh_congr hkeys',
    fresh_congr (mSeenExecutionKeys_receive hkeys before), find_onOrderIntent,
    find_onOrderIntent, find_receive hbefore]
  cases ofNewOrderIntent intent with
  | none => simp
  | some order =>
      simp only [Option.elim_some, foldl_nextRow_eq_iff, Option.some.injEq, forall_eq']

end Application

/-! ## A fill that comes before the intent -/

def activeSession : FixClientSession :=
  ⟨"C1".toList, "EXCH".toList, .active, ⟨2, 2⟩, true⟩

/-- What `sendNewOrder` hands to the callback for a limit order of three lots, sent
five microseconds after the epoch. -/
def sentIntent : NewOrderIntent := ⟨"5", "EURUSD", '1', .finite (3 / 2), 3, '2', '0'⟩

def reportOf (executionId : String) (status : OrderStatus) (leaves : Quantity) :
    ExecutionReport Double where
  senderCompId := 0
  targetCompId := 0
  messageSequenceNumber := 2
  exchangeOrderId := 7
  clientOrderId := "5"
  executionId := executionId
  status := status
  text := ""
  symbol := .eurusd
  side := .buy
  orderQuantity := 3
  cumulativeQuantity := 3 - leaves
  leavesQuantity := leaves
  lastPrice := .finite (3 / 2)
  lastQuantity := 3 - leaves
  transactionTime := 0

theorem sentIntent_mem : sentIntent ∈ FixClientEffect.intents
    (activeSession.sendNewOrder "EURUSD" '1' (.finite (3 / 2)) 3 '2' '0' 5000 5000 5000).2 :=
  List.mem_singleton.mpr rfl

theorem commutes_iff_sample :
    Commutes (ofCalls []) sentIntent [reportOf "e1" .new 3] [reportOf "e2" .filled 0] := by
  have hreports : ∀ report ∈ [reportOf "e1" .new 3] ++ [reportOf "e2" .filled 0],
      report.clientOrderId = sentIntent.clientOrderId := by decide
  refine (commutes_iff [] activeSession "EURUSD" '1' (.finite (3 / 2)) 3 '2' '0' 5000 5000 5000
    sentIntent sentIntent_mem _ _ hreports).mpr fun order _ => Or.inl ?_
  decide +kernel

/-- The order has been filled, and the blotter goes on listing it as new. -/
theorem filled_order_listed :
    sentIntent ∈ FixClientEffect.intents
        (activeSession.sendNewOrder "EURUSD" '1' (.finite (3 / 2)) 3 '2' '0' 5000 5000 5000).2 ∧
      (((ofCalls []).receive [reportOf "e1" .filled 0]).onOrderIntent sentIntent).activeOrders =
        [{ clientOrderId := "5", orderTypeKnown := true, price := .finite (3 / 2),
           originalQuantity := 3, remainingQuantity := 3, exchangeOrderId := 0 }] ∧
      (((ofCalls []).onOrderIntent sentIntent).receive [reportOf "e1" .filled 0]).activeOrders =
        [] ∧
      ¬Commutes (ofCalls []) sentIntent [reportOf "e1" .filled 0] [] := by
  have hlate : (((ofCalls []).receive [reportOf "e1" .filled 0]).onOrderIntent
      sentIntent).activeOrders =
        [{ clientOrderId := "5", orderTypeKnown := true, price := .finite (3 / 2),
           originalQuantity := 3, remainingQuantity := 3, exchangeOrderId := 0 }] := by
    decide +kernel
  have hearly : (((ofCalls []).onOrderIntent sentIntent).receive
      [reportOf "e1" .filled 0]).activeOrders = [] := by
    decide +kernel
  refine ⟨sentIntent_mem, hlate, hearly, fun h => ?_⟩
  have hsame := h.same
  rw [List.append_nil, hearly] at hsame
  exact absurd (hlate.symm.trans hsame) (by simp)

end BlotterModel

end Client

end BetaTrader
