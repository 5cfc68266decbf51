import BetaTrader.Client.BlotterModel
import BetaTrader.Lib.Redelivery

/-!
# Reports that are delivered again

Reports with an ExecID are remembered by their keys for as long as the blotter lives,
so that a copy is passed over whatever has become of its order since.
-/

namespace BetaTrader

namespace Client

open Redelivery

/-- The calls that change the blotter, each under the mutex. -/
inductive ModelCall (P : Type) where
  | recordOrderIntent (intent : OrderIntent P)
  | processExecution (report : ExecutionReport P)

/-- The second report says the same about the execution as the first; it may have
another MsgSeqNum, for one thing. -/
structure SameExecution {P : Type} (report copy : ExecutionReport P) : Prop where
  executionId : copy.executionId = report.executionId
  clientOrderId : copy.clientOrderId = report.clientOrderId
  status : copy.status = report.status
  cumulativeQuantity : copy.cumulativeQuantity = report.cumulativeQuantity
  leavesQuantity : copy.leavesQuantity = report.leavesQuantity
  lastPrice : copy.lastPrice = report.lastPrice
  lastQuantity : copy.lastQuantity = report.lastQuantity
  text : copy.text = report.text

/-- A report itself is a copy. -/
@[refl] theorem SameExecution.refl {P : Type} (report : ExecutionReport P) :
    SameExecution report report := ⟨rfl, rfl, rfl, rfl, rfl, rfl, rfl, rfl⟩

/-- Reports are delivered again, intents are not. -/
def ModelCall.Copy {P : Type} : ModelCall P → ModelCall P → Prop
  | .processExecution report, .processExecution copy => SameExecution report copy
  | _, _ => False

namespace BlotterModel

variable {P : Type} [Zero P] [DecidableEq P] [StreamPrice P] {model : BlotterModel P}

def call (model : BlotterModel P) : ModelCall P → BlotterModel P
  | .recordOrderIntent intent => model.recordOrderIntent intent
  | .processExecution report => model.processExecution report

/-- The key of the report has been seen. -/
def Remembers (model : BlotterModel P) : ModelCall P → Prop
  | .recordOrderIntent _ => True
  | .processExecution report => model.Repeats report

omit [Zero P] [DecidableEq P] in
theorem executionKey_of_same {report copy : ExecutionReport P} (h : SameExecution report copy) :
    executionKey copy = executionKey report := by
  rw [executionKey, h.executionId, h.clientOrderId, h.status, h.cumulativeQuantity,
    h.leavesQuantity, h.lastPrice, h.lastQuantity, h.text]
  rfl

theorem call_of_remembers {call copy : ModelCall P} (h : model.Remembers call)
    (hcopy : call.Copy copy) : model.call copy = model := by
  cases call with
  | recordOrderIntent intent => exact hcopy.elim
  | processExecution report =>
      cases copy with
      | recordOrderIntent intent => exact hcopy.elim
      | processExecution copy =>
          apply processExecution_of_repeats
          rw [repeats_iff, executionKey_of_same hcopy, hcopy.executionId]
          exact h

/-- No call takes a key away. -/
theorem remembers_call {call : ModelCall P} (h : model.Remembers call) (other : ModelCall P) :
    (model.call other).Remembers call := by
  cases call with
  | recordOrderIntent intent => trivial
  | processExecution report =>
      refine ⟨h.1, ?_⟩
      cases other with
      | recordOrderIntent intent => exact h.2
      | processExecution other =>
          have hkeys : executionKey report ∈ model.mSeenExecutionKeys := h.2
          rw [BlotterModel.call, processExecution]
          split_ifs
          · exact hkeys
          · exact List.mem_cons_of_mem _ hkeys
          · exact hkeys

theorem repeats_processExecution {report : ExecutionReport P} (hid : report.executionId ≠ "")
    (model : BlotterModel P) : (model.processExecution report).Repeats report := by
  refine ⟨hid, ?_⟩
  by_cases hrepeats : model.Repeats report
  · rw [processExecution_of_repeats hrepeats]
    exact hrepeats.2
  · rw [processExecution, if_neg hrepeats, if_pos hid]
    exact List.mem_cons_self

/-- Whatever the calls, copies of reports that come after the reports themselves leave
the orders and the history as they are. -/
theorem redelivery_harmless (model : BlotterModel P) {calls calls' : List (ModelCall P)}
    (hids : ∀ report, .processExecution report ∈ calls → report.executionId ≠ "")
    (h : Redelivered ModelCall.Copy [] calls calls') :
    (calls'.foldl call model).activeOrders = (calls.foldl call model).activeOrders ∧
      (calls'.foldl call model).history = (calls.foldl call model).history := by
  have hsame : calls'.foldl call model = calls.foldl call model := by
    apply foldl_redelivered (fun _ _ _ => call_of_remembers)
      (fun _ _ other h => remembers_call h other) h
    · intro call hcall model
      cases call with
      | recordOrderIntent intent => trivial
      | processExecution report => exact repeats_processExecution (hids report hcall) model
    · simp
  exact ⟨congrArg activeOrders hsame, congrArg history hsame⟩

/-! ## An order that is cancelled and sent again -/

def cancelMeIntent : OrderIntent ℚ := ⟨"cancel-me", .usdjpy, .sell, .market, 0, 10⟩

def cancelMe (seqNum : UInt64) (status : OrderStatus) (text : String) : ExecutionReport ℚ where
  senderCompId := 0
  targetCompId := 0
  messageSequenceNumber := seqNum
  exchangeOrderId := 42
  clientOrderId := "cancel-me"
  executionId := "exec-cancel"
  status := status
  text := text
  symbol := .usdjpy
  side := .sell
  orderQuantity := 10
  cumulativeQuantity := 0
  leavesQuantity := 10
  lastPrice := 0
  lastQuantity := 0
  transactionTime := 5

theorem copy_cancelMe (seqNum seqNum' : UInt64) (status : OrderStatus) (text : String) :
    ModelCall.Copy (.processExecution (cancelMe seqNum status text))
      (.processExecution (cancelMe seqNum' status text)) :=
  ⟨rfl, rfl, rfl, rfl, rfl, rfl, rfl, rfl⟩

/-- The two reports come again once the order has been removed, and the second one also
after a new intent. -/
theorem redelivery_harmless_sample :
    let intent : ModelCall ℚ := .recordOrderIntent cancelMeIntent
    let report seqNum : ModelCall ℚ := .processExecution (cancelMe seqNum .new "NEW")
    let cancelled seqNum : ModelCall ℚ :=
      .processExecution (cancelMe seqNum .cancelled "User cancelled")
    let calls := [intent, report 2, cancelled 3, intent]
    let calls' := [intent, report 2, cancelled 3, report 4, cancelled 5, intent, cancelled 6]
    (calls'.foldl call empty).activeOrders = (calls.foldl call empty).activeOrders ∧
      (calls'.foldl call empty).history = (calls.foldl call empty).history := by
  intro intent report cancelled calls calls'
  apply redelivery_harmless empty
  · simp [calls, intent, report, cancelled, cancelMe]
  · refine .next intent (.next (report 2) (.next (cancelled 3) ?_))
    apply Redelivered.again (a := report 2) (by simp) (copy_cancelMe ..)
    apply Redelivered.again (a := cancelled 3) (by simp) (copy_cancelMe ..)
    apply Redelivered.next
    apply Redelivered.again (a := cancelled 3) (by simp) (copy_cancelMe ..)
    exact .nil _

end BlotterModel

end Client

end BetaTrader
