import BetaTrader.Exchange.RequestScope
import BetaTrader.Lib.Fifo

/-!
# Whether a cancel request is settled

A cancel is routed when it comes in, by what the partitions have registered then,
and not by what is still in their queues.  If the order is found, the command
goes behind it into the same queue, and the worker cancels or rejects.  If it is
not found, the request ends there, and nobody is told.
-/

namespace BetaTrader

namespace FixSession

variable {ctx : HandlerContext} {manager : FixSessionManager} {sessionId : ConnectionID}
  {fixMessage : Message} {command : Command Double}

/-- A message that is dispatched. -/
theorem handleFrame_eq_dispatch {c : Char} {n : UInt32} (htype : msgType fixMessage = some c)
    (hlogon : c ≠ 'A') (hlogout : c ≠ '5') (hlogged : isLoggedOn manager sessionId = true)
    (hn : msgSeqNum fixMessage = some n) :
    handleFrame ctx manager sessionId fixMessage =
      some (dispatch ctx (manager.validateSequence sessionId n).2 sessionId fixMessage c n) := by
  obtain ⟨fields, hfields, hhead⟩ := Option.bind_eq_some_iff.mp htype
  obtain ⟨value, hvalue, hc⟩ := Option.bind_eq_some_iff.mp hhead
  obtain ⟨rest, rfl⟩ := List.head?_eq_some_iff.mp hc
  simp [handleFrame, hfields, hvalue, handleFixMessage, hn, hlogon, hlogout, hlogged]

theorem handleFrame_of_submits (hlogged : isLoggedOn manager sessionId = true)
    (hn : (msgSeqNum fixMessage).isSome) (h : Submits ctx sessionId fixMessage command) :
    ∃ manager', handleFrame ctx manager sessionId fixMessage =
      some (manager', [.submitCommand command]) := by
  obtain ⟨n, hn⟩ := Option.isSome_iff_exists.mp hn
  refine ⟨(manager.validateSequence sessionId n).2, ?_⟩
  cases h with
  | newOrder htype hconvert =>
      rw [handleFrame_eq_dispatch htype (by decide) (by decide) hlogged hn]
      simp [dispatch, handleNewOrderSingle, hconvert]
  | cancelOrder htype hconvert hid =>
      rw [handleFrame_eq_dispatch htype (by decide) (by decide) hlogged hn]
      simp [dispatch, handleCancelOrderRequest, hconvert, hid]
  | modifyOrder htype hconvert hid =>
      rw [handleFrame_eq_dispatch htype (by decide) (by decide) hlogged hn]
      simp [dispatch, handleModifyOrderRequest, hconvert, hid]

end FixSession

/-- The process goes on. -/
def ExchangeEvent.Live : ExchangeEvent → Prop
  | .restart _ _ _ => False
  | _ => True

namespace Partition

variable {s s' : Partition Double} {clock : Clock}

/-- A cancel that is processed leaves the order unregistered, or rejects. -/
theorem processCancelOrder_settles {cmd : CancelOrder}
    (h : processCommand clock s (.cancelOrder cmd) = some s') :
    s'.orderManager.orderMap cmd.orderId = none ∨ ∃ symbol side reason now,
      .published (.rejection cmd.orderId cmd.clientId symbol side reason now) ∈
        s'.journal.drop s.journal.length := by
  simp only [processCommand, processCancelOrder] at h
  split at h
  · obtain rfl := Option.some.inj h
    exact Or.inr ⟨.eurusd, .buy, "Order not found", clock s.ticks, by simp [publishRejection]⟩
  · simp only [Option.bind_eq_bind, Option.bind_eq_some_iff] at h
    obtain ⟨⟨cancelled, s₁⟩, hcancel, order, _, h⟩ := h
    split_ifs at h with hcancelled
    · obtain rfl := Option.some.inj h
      exact Or.inl (OrderManager.removeOrderById_orderMap_self _ _)
    · obtain rfl := Option.some.inj h
      obtain ⟨⟨orderBook, refresh⟩, _, hcancel⟩ := Option.bind_eq_some_iff.mp hcancel
      cases refresh with
      | none =>
          obtain ⟨_, rfl⟩ := Prod.mk.inj (Option.some.inj hcancel)
          exact Or.inr ⟨order.symbol, order.side, "Order cannot be canceled", clock s.ticks,
            by simp [publishRejection]⟩
      | some refresh =>
          obtain ⟨rfl, _⟩ := Prod.mk.inj (Option.some.inj hcancel)
          exact absurd rfl hcancelled

/-- An order that is not registered stays so, unless a command brings it in. -/
theorem orderMap_processCommand {cmd : Command Double} {id : OrderID}
    (haddressed : s.orderManager.Addressed) (hnone : s.orderManager.orderMap id = none)
    (hnew : id ∉ cmd.newIds) (h : processCommand clock s cmd = some s') :
    s'.orderManager.orderMap id = none := by
  rcases processCommand_extends haddressed h with ⟨events, hextends⟩ | ⟨_, events, hextends⟩
  · exact (hextends.serves.gone id hnone).1
  · apply (hextends.serves.gone id _).1
    cases cmd with
    | newOrder c =>
        have hne : id ≠ c.order.coreOrderId := fun heq => hnew (List.mem_singleton.mpr heq)
        rw [admitted, withManager, OrderManager.write_orderMap_of_ne _ _ hne]
        exact hnone
    | cancelOrder c => exact hnone
    | modifyOrder c => exact hnone

end Partition

namespace Exchange

variable {σ : Exchange} {symbol : Instrument} {event : ExchangeEvent}
  {events : List ExchangeEvent}

/-! ## The queues of the partitions -/

/-- The command that the worker of a partition processes if it takes a step. -/
def takenBy (σ : Exchange) (symbol : Instrument) (clock : Clock) : List QueuedCommand :=
  match σ.outbox symbol, σ.queues symbol with
  | [], queued :: _ =>
      if ((σ.partitionOf symbol).processCommand clock queued.command).isSome then [queued] else []
  | _, _ => []

/-- What an event takes from the queue of a partition. -/
def takes (σ : Exchange) (symbol : Instrument) : ExchangeEvent → List QueuedCommand
  | .work other clock => if σ.server.running ∧ other = symbol then σ.takenBy symbol clock else []
  | _ => []

/-- What an event puts into the queue of a partition. -/
def puts (σ : Exchange) (symbol : Instrument) (event : ExchangeEvent) : List QueuedCommand :=
  match event with
  | .server _ | .simulate _ => ((σ.step event).queues symbol).drop (σ.queues symbol).length
  | _ => []

theorem work_takes (σ : Exchange) (symbol : Instrument) (clock : Clock) :
    (σ.takenBy symbol clock = [] ∧ (σ.work symbol clock).queues = σ.queues ∧
      (σ.work symbol clock).partitions = σ.partitions) ∨
    ∃ queued rest s, σ.takenBy symbol clock = [queued] ∧ σ.queues symbol = queued :: rest ∧
      (σ.partitionOf symbol).processCommand clock queued.command = some s ∧
        σ.work symbol clock = σ.finish symbol queued rest s := by
  unfold work takenBy
  cases σ.outbox symbol with
  | cons outgoing pending => exact Or.inl ⟨rfl, rfl, rfl⟩
  | nil =>
      cases hqueue : σ.queues symbol with
      | nil => exact Or.inl ⟨rfl, rfl, rfl⟩
      | cons queued rest =>
          cases hprocess : (σ.partitionOf symbol).processCommand clock queued.command with
          | none => exact Or.inl (by simp [hprocess])
          | some s => exact Or.inr ⟨queued, rest, s, by simp [hprocess]⟩

theorem submit_queues (σ : Exchange) (queued : QueuedCommand) (symbol : Instrument) :
    ∃ new, (σ.submit queued).queues symbol = σ.queues symbol ++ new := by
  have henter : (σ.enter queued).queues = σ.queues := by
    unfold enter
    split <;> rfl
  unfold submit
  rcases (σ.enter queued).submitCommand_cases queued with heq | ⟨other, heq⟩
  · exact ⟨[], by rw [heq, henter, List.append_nil]⟩
  · rw [heq]
    by_cases h : symbol = other
    · subst h
      exact ⟨[queued], by simp [henter]⟩
    · exact ⟨[], by simp [Function.update_of_ne h, henter]⟩

theorem serve_queues (σ : Exchange) (event : ServerEvent) (symbol : Instrument) :
    ∃ new, (σ.serve event).queues symbol = σ.queues symbol ++ new := by
  rcases σ.serve_cases event with heq | ⟨_, _, _, connection, command, _, _, _, _, _, _, heq⟩
  · exact ⟨[], by rw [heq, List.append_nil]⟩
  · rw [heq]
    exact submit_queues { σ with server := σ.server.step event } _ symbol

theorem queues_conserved (σ : Exchange) (symbol : Instrument) (hlive : event.Live) :
    σ.takes symbol event ++ (σ.step event).queues symbol =
      σ.queues symbol ++ σ.puts symbol event := by
  have hputs : ∀ new, (σ.step event).queues symbol = σ.queues symbol ++ new →
      (σ.step event).queues symbol = σ.queues symbol ++
        ((σ.step event).queues symbol).drop (σ.queues symbol).length := by
    intro new heq
    rw [heq, List.drop_left]
  cases event with
  | server event =>
      obtain ⟨new, hnew⟩ : ∃ new, (σ.step (.server event)).queues symbol =
          σ.queues symbol ++ new := by
        simp only [step]
        split_ifs
        · exact σ.serve_queues event symbol
        · exact ⟨[], (List.append_nil _).symm⟩
      exact hputs new hnew
  | simulate cmd =>
      obtain ⟨new, hnew⟩ : ∃ new, (σ.step (.simulate cmd)).queues symbol =
          σ.queues symbol ++ new := by
        simp only [step]
        split_ifs
        · exact σ.submit_queues _ symbol
        · exact ⟨[], (List.append_nil _).symm⟩
      exact hputs new hnew
  | work other clock =>
      simp only [takes, puts, step, List.append_nil]
      by_cases hrunning : σ.server.running
      · by_cases h : other = symbol
        · subst h
          simp only [hrunning, and_self, if_true]
          rcases σ.work_takes other clock with
            ⟨htaken, hqueues, _⟩ | ⟨queued, rest, s, htaken, hqueue, _, heq⟩
          · rw [htaken, hqueues, List.nil_append]
          · rw [htaken, heq, hqueue]
            simp [finish]
        · have hother : (σ.work other clock).queues symbol = σ.queues symbol := by
            rcases σ.work_takes other clock with
              ⟨_, hqueues, _⟩ | ⟨queued, rest, s, _, _, _, heq⟩
            · rw [hqueues]
            · rw [heq]
              exact Function.update_of_ne (Ne.symm h) _ _
          simp [hrunning, h, hother]
      · simp [hrunning]
  | deliver other =>
      simp only [takes, puts, step, List.nil_append, List.append_nil]
      split_ifs
      · rw [deliver_queues]
      · rfl
  | database =>
      simp only [takes, puts, step, List.nil_append, List.append_nil]
      split_ifs
      · rw [executeTask_queues]
      · rfl
  | restart seqRepo tradeId iteration => exact hlive.elim

/-- A partition changes only when its worker takes a command. -/
theorem step_partition_cases (σ : Exchange) (symbol : Instrument) (hlive : event.Live) :
    (σ.step event).partitions symbol = σ.partitions symbol ∨
    ∃ clock, ∃ queued ∈ σ.takes symbol event,
      (σ.partitionOf symbol).processCommand clock queued.command =
        some ((σ.step event).partitions symbol) := by
  cases event with
  | server event => exact Or.inl (by rw [step_server_partitions])
  | simulate cmd =>
      simp only [step]
      split_ifs
      · exact Or.inl (by rw [submit_partitions])
      · exact Or.inl rfl
  | work other clock =>
      simp only [step]
      split_ifs with hrunning
      · rcases σ.work_takes other clock with
          ⟨_, _, hsame⟩ | ⟨queued, rest, s, htaken, _, hprocess, heq⟩
        · exact Or.inl (by rw [hsame])
        · by_cases h : symbol = other
          · subst h
            refine Or.inr ⟨clock, queued, by simp [takes, hrunning, htaken], ?_⟩
            rw [heq, hprocess]
            simp [finish]
          · rw [heq]
            exact Or.inl (Function.update_of_ne h _ _)
      · exact Or.inl rfl
  | deliver other =>
      simp only [step]
      split_ifs
      · exact Or.inl (by rw [deliver_partitions])
      · exact Or.inl rfl
  | database =>
      simp only [step]
      split_ifs
      · exact Or.inl (by rw [executeTask_partitions])
      · exact Or.inl rfl
  | restart seqRepo tradeId iteration => exact hlive.elim

/-- The way of the commands through the queue of a partition. -/
def queuePassage (symbol : Instrument) : Fifo.Passage step ExchangeEvent.Live QueuedCommand where
  content := fun σ => σ.queues symbol
  entering := fun σ => σ.puts symbol
  leaving := fun σ => σ.takes symbol
  conserves := fun σ _ hlive => σ.queues_conserved symbol hlive

/-- The commands that the worker of a partition processes in a run. -/
def taken (σ : Exchange) (symbol : Instrument) (events : List ExchangeEvent) :
    List QueuedCommand := (queuePassage symbol).left σ events

/-- A command that leaves a queue is the one that a step of the worker processes. -/
theorem takes_eq_cons {xs ys : List QueuedCommand} {queued : QueuedCommand}
    (h : σ.takes symbol event = xs ++ queued :: ys) : xs = [] ∧ ys = [] ∧ ∃ clock rest s,
      event = .work symbol clock ∧ σ.server.running ∧ σ.queues symbol = queued :: rest ∧
        (σ.partitionOf symbol).processCommand clock queued.command = some s ∧
          σ.work symbol clock = σ.finish symbol queued rest s := by
  cases event with
  | work other clock =>
      simp only [takes] at h
      split_ifs at h with hworks
      · obtain ⟨hrunning, rfl⟩ := hworks
        rcases σ.work_takes other clock with
          ⟨htaken, _⟩ | ⟨queued', rest, s, htaken, hqueue, hprocess, heq⟩
        · simp [htaken] at h
        · rw [htaken] at h
          cases xs with
          | nil =>
              obtain ⟨rfl, rfl⟩ := List.cons.inj h
              exact ⟨rfl, rfl, clock, rest, s, rfl, hrunning, hqueue, hprocess, heq⟩
          | cons x xs => simp at h
      · simp at h
  | server event => simp [takes] at h
  | simulate cmd => simp [takes] at h
  | deliver other => simp [takes] at h
  | database => simp [takes] at h
  | restart seqRepo tradeId iteration => simp [takes] at h

/-! ## Orders that are gone -/

theorem Addressed.run (h : σ.Addressed) (events : List ExchangeEvent) :
    (σ.run events).Addressed :=
  List.foldlRecOn events step h fun _ hσ event _ => addressed_step hσ event

/-- An order that is not registered with a partition stays so, unless the worker
processes a command that brings it in. -/
theorem orderMap_run {id : OrderID} (haddressed : σ.Addressed)
    (hnone : (σ.partitions symbol).orderManager.orderMap id = none)
    (hlive : ∀ event ∈ events, event.Live)
    (hnew : ∀ queued ∈ σ.taken symbol events, id ∉ queued.command.newIds) :
    ((σ.run events).partitions symbol).orderManager.orderMap id = none := by
  induction events generalizing σ with
  | nil => exact hnone
  | cons event events ih =>
      have htaken : σ.taken symbol (event :: events) =
          σ.takes symbol event ++ (σ.step event).taken symbol events := rfl
      rw [htaken] at hnew
      refine ih (addressed_step haddressed event) ?_
        (fun event' h => hlive event' (List.mem_cons_of_mem _ h))
        (fun queued h => hnew queued (List.mem_append_right _ h))
      rcases σ.step_partition_cases symbol (hlive event List.mem_cons_self) with
        hsame | ⟨clock, queued, htaken, hprocess⟩
      · rwa [hsame]
      · have hfresh := hnew queued (List.mem_append_left _ htaken)
        exact Partition.orderMap_processCommand (s := σ.partitionOf symbol) (haddressed symbol)
          hnone hfresh hprocess

/-! ## Submitting -/

/-- A frame that comes in on a session that is logged on, with a number that can
be read. -/
structure Receives (σ : Exchange) (sessionId : ConnectionID) (fixMessage : Message) : Prop where
  running : σ.server.running = true
  registered : (σ.server.sessions sessionId).isSome
  loggedOn : FixSession.isLoggedOn σ.server.manager sessionId = true
  numbered : (FixSession.msgSeqNum fixMessage).isSome

variable {sessionId : ConnectionID} {ctx : HandlerContext} {fixMessage : Message}
  {command : Command Double}

theorem step_of_submits (h : σ.Receives sessionId fixMessage)
    (hsubmits : FixSession.Submits ctx sessionId fixMessage command) :
    ∃ server source, σ.step (.server (.frame sessionId ctx fixMessage)) =
      { σ with server := server }.submit ⟨command, some source⟩ := by
  obtain ⟨connection, hconnection⟩ := Option.isSome_iff_exists.mp h.registered
  obtain ⟨manager', hframe⟩ := FixSession.handleFrame_of_submits h.loggedOn h.numbered hsubmits
  refine ⟨σ.server.step (.frame sessionId ctx fixMessage), ⟨sessionId, connection⟩, ?_⟩
  have hsubmissions : (σ.server.step (.frame sessionId ctx fixMessage)).submissions =
      σ.server.submissions ++
        [σ.server.submission sessionId connection fixMessage command] := by
    simp [FixServer.step, FixServer.receive, h.running, hconnection, hframe,
      SessionEffect.commands]
  simp only [step, h.running, if_true, serve, hsubmissions, List.drop_left, List.foldl_cons,
    List.foldl_nil]
  rfl

theorem queues_enqueue {queued : QueuedCommand}
    (hroom : (σ.queues symbol).length < commandQueueCapacity) :
    (σ.enqueue symbol queued).queues symbol = σ.queues symbol ++ [queued] := by
  simp [enqueue, hroom]

/-! ## An order and the request to cancel it -/

/-- An order with the id is registered with the partition and in its book. -/
def Rests (σ : Exchange) (symbol : Instrument) (id : OrderID) : Prop :=
  (σ.partitions symbol).orderManager.orderMap id ≠ none ∧
    (σ.partitions symbol).orderBook.Contains id

/-- What the worker of a partition records in a step. -/
def records (σ : Exchange) (symbol : Instrument) (event : ExchangeEvent) : List (Event Double) :=
  ((σ.step event).partitions symbol).journal.drop (σ.partitions symbol).journal.length

/-- A session enters an order and asks for its cancellation later. -/
structure CancelRun where
  seqRepo : Option SequenceRepository
  before : List ExchangeEvent
  sessionId : ConnectionID
  entryCtx : HandlerContext
  entryMessage : Message
  order : OrderRequest
  between : List ExchangeEvent
  cancelCtx : HandlerContext
  cancelMessage : Message
  cancel : CancelOrderRequest
  after : List ExchangeEvent

namespace CancelRun

variable (run : CancelRun)

def entryEvent : ExchangeEvent :=
  .server (.frame run.sessionId run.entryCtx run.entryMessage)

def cancelEvent : ExchangeEvent :=
  .server (.frame run.sessionId run.cancelCtx run.cancelMessage)

def atEntry : Exchange := (start run.seqRepo).run run.before

def afterEntry : Exchange := run.atEntry.step run.entryEvent

def atCancel : Exchange := run.afterEntry.run run.between

def afterCancel : Exchange := run.atCancel.step run.cancelEvent

def atEnd : Exchange := run.afterCancel.run run.after

def orderId : OrderID := run.entryCtx.nextId

/-- What the session submits for the order. -/
def entryCommand : Command Double :=
  .newOrder (run.order.newOrder run.sessionId run.entryCtx.nextId run.entryCtx.now)

/-- What cancels the order. -/
def cancelCommand : Command Double :=
  .cancelOrder {
    clientId := numberText run.sessionId.toNat
    timestamp := run.cancel.transactTime
    orderId := run.orderId }

/-- The client order id that the request states. -/
def statedId : ClientOrderID :=
  if run.cancel.origClOrdID = "" then run.cancel.clOrdID else run.cancel.origClOrdID

/-- The two requests come in as they should, the second names the order of the
first, the process goes on, and the queues are empty in the end. -/
structure Valid : Prop where
  reads : TotalRun.Meets step Reads (start run.seqRepo)
    (run.before ++ run.entryEvent :: (run.between ++ run.cancelEvent :: run.after))
  entryReceived : run.atEntry.Receives run.sessionId run.entryMessage
  entryType : FixSession.msgType run.entryMessage = some 'D'
  entered : BinaryToOrderRequestConverter.convert run.entryMessage = some run.order
  betweenLive : ∀ event ∈ run.between, event.Live
  cancelReceived : run.atCancel.Receives run.sessionId run.cancelMessage
  cancelType : FixSession.msgType run.cancelMessage = some 'F'
  asked : BinaryToCancelOrderRequestConverter.convert run.cancelCtx.utcOffset
    run.cancelMessage = some run.cancel
  names : run.cancel.orderID = run.orderId ∨
    (run.cancel.orderID = 0 ∧ run.statedId = run.order.clientOrderId)
  afterLive : ∀ event ∈ run.after, event.Live
  drained : ∀ symbol, run.atEnd.queues symbol = []

/-- A worker has processed the cancel in its turn, and after the order; the order
does not rest, unless its id has been given to another one since. -/
structure ProcessedBy (symbol : Instrument) (early : List ExchangeEvent) (clock : Clock)
    (late : List ExchangeEvent) : Prop where
  split : run.after = early ++ .work symbol clock :: late
  turn : run.afterCancel.taken symbol early = run.atCancel.queues symbol
  processed : ∃ source, (run.afterCancel.run early).takes symbol (.work symbol clock) =
    [⟨run.cancelCommand, source⟩]
  afterOrder : ∃ source, run.atEntry.queues run.order.symbol ++ [⟨run.entryCommand, source⟩] <+:
    run.afterEntry.taken run.order.symbol (run.between ++ run.cancelEvent :: early)
  gone : ¬run.atEnd.Rests run.order.symbol run.orderId ∨
    ∃ queued ∈ ((run.afterCancel.run early).step (.work symbol clock)).taken run.order.symbol late,
      run.orderId ∈ queued.command.newIds

/-- A worker has published a rejection to the session. -/
structure RejectedBy (symbol : Instrument) (early : List ExchangeEvent) (event : ExchangeEvent)
    (late : List ExchangeEvent) : Prop where
  split : run.after = early ++ event :: late
  rejected : ∃ instrument side reason now,
    .published (.rejection run.orderId (numberText run.sessionId.toNat) instrument side reason
      now) ∈ (run.afterCancel.run early).records symbol event

/-- What is to become of the request. -/
def Settled : Prop :=
  (∃ symbol early clock late, run.ProcessedBy symbol early clock late) ∨
    ∃ symbol early event late, run.RejectedBy symbol early event late

/-- The order finds room in its queue; and when the request comes in, it leads to
the order, the order is registered with its partition, and the queue has room. -/
structure Routed : Prop where
  entryRoom : (run.atEntry.queues run.order.symbol).length < commandQueueCapacity
  resolved : FixSession.orderIdToCancel run.cancelCtx run.cancel = run.orderId
  named : run.orderId ≠ 0
  found : run.atCancel.findPartitionForOrder run.orderId = some run.order.symbol
  cancelRoom : (run.atCancel.queues run.order.symbol).length < commandQueueCapacity

variable {run}

theorem queues_afterEntry (h : run.Valid) (hrouted : run.Routed) : ∃ source,
    run.afterEntry.queues run.order.symbol =
      run.atEntry.queues run.order.symbol ++ [⟨run.entryCommand, source⟩] := by
  have hsubmits : FixSession.Submits run.entryCtx run.sessionId run.entryMessage
      run.entryCommand := .newOrder h.entryType h.entered
  obtain ⟨server, source, hstep⟩ := step_of_submits h.entryReceived hsubmits
  refine ⟨some source, ?_⟩
  rw [afterEntry, entryEvent, hstep]
  exact queues_enqueue hrouted.entryRoom

theorem queues_afterCancel (h : run.Valid) (hrouted : run.Routed) : ∃ source,
    run.afterCancel.queues run.order.symbol =
      run.atCancel.queues run.order.symbol ++ [⟨run.cancelCommand, source⟩] := by
  have hid : FixSession.orderIdToCancel run.cancelCtx run.cancel ≠ 0 := by
    rw [hrouted.resolved]
    exact hrouted.named
  have hsubmits : FixSession.Submits run.cancelCtx run.sessionId run.cancelMessage
      (.cancelOrder {
        clientId := numberText run.sessionId.toNat
        timestamp := run.cancel.transactTime
        orderId := FixSession.orderIdToCancel run.cancelCtx run.cancel }) :=
    .cancelOrder h.cancelType h.asked hid
  rw [hrouted.resolved] at hsubmits
  obtain ⟨server, source, hstep⟩ := step_of_submits h.cancelReceived hsubmits
  refine ⟨some source, ?_⟩
  have hfound : ({ run.atCancel with server := server } : Exchange).findPartitionForOrder
      run.orderId = some run.order.symbol := hrouted.found
  rw [afterCancel, cancelEvent, hstep, submit, enter, submitCommand]
  simp only [hfound]
  exact queues_enqueue hrouted.cancelRoom

/-- The order is processed before the commands that come after it. -/
theorem order_taken (h : run.Valid) (hrouted : run.Routed) {early : List ExchangeEvent}
    (hturn : run.afterCancel.taken run.order.symbol early =
      run.atCancel.queues run.order.symbol) :
    ∃ source, run.atEntry.queues run.order.symbol ++ [⟨run.entryCommand, source⟩] <+:
      run.afterEntry.taken run.order.symbol (run.between ++ run.cancelEvent :: early) := by
  obtain ⟨source, hentry⟩ := queues_afterEntry h hrouted
  refine ⟨source, ?_⟩
  have hlaw := (queuePassage run.order.symbol).left_append_content (s := run.afterEntry)
    h.betweenLive
  have hsplit : run.afterEntry.taken run.order.symbol (run.between ++ run.cancelEvent :: early) =
      run.afterEntry.taken run.order.symbol run.between ++
        run.afterCancel.taken run.order.symbol early := Fifo.outputs_append
  have hlaw' : run.afterEntry.taken run.order.symbol run.between ++
      run.atCancel.queues run.order.symbol = run.afterEntry.queues run.order.symbol ++
        (queuePassage run.order.symbol).entered run.afterEntry run.between := hlaw
  rw [hsplit, hturn, hlaw', hentry]
  exact List.prefix_append _ _

/-- The worker comes to the cancel in its turn. -/
theorem exists_turn (h : run.Valid) (hrouted : run.Routed) : ∃ early clock late source,
    run.after = early ++ .work run.order.symbol clock :: late ∧
      run.afterCancel.taken run.order.symbol early = run.atCancel.queues run.order.symbol ∧
      (run.afterCancel.run early).takes run.order.symbol (.work run.order.symbol clock) =
        [⟨run.cancelCommand, source⟩] := by
  obtain ⟨source, hcancel⟩ := queues_afterCancel h hrouted
  have hempty : (queuePassage run.order.symbol).content (run.after.foldl step run.afterCancel) =
      [] := h.drained run.order.symbol
  have hcontent : (queuePassage run.order.symbol).content run.afterCancel =
      run.atCancel.queues run.order.symbol ++ [⟨run.cancelCommand, source⟩] := hcancel
  have hall : run.afterCancel.taken run.order.symbol run.after =
      run.atCancel.queues run.order.symbol ++ ⟨run.cancelCommand, source⟩ ::
        (queuePassage run.order.symbol).entered run.afterCancel run.after := by
    have hleft := (queuePassage run.order.symbol).left_of_content_eq_nil h.afterLive hempty
    rw [taken, hleft, hcontent, List.append_assoc, List.singleton_append]
  obtain ⟨early, event, late, xs, ys, hafter, hstep, hturn⟩ := Fifo.exists_step_of_outputs hall
  obtain ⟨rfl, rfl, clock, _, _, rfl, _⟩ := takes_eq_cons hstep
  refine ⟨early, clock, late, source, hafter, ?_, hstep⟩
  rw [hturn, List.append_nil]
  rfl

end CancelRun

end Exchange

namespace Exchange

/-! ## A request that is settled and one that is lost -/

namespace Sample

/-- The order is in its queue, or the worker has processed it. -/
def cancelRun (between : List ExchangeEvent) (cancelCtx : HandlerContext) : CancelRun where
  seqRepo := none
  before := entered.take 5
  sessionId := 1
  entryCtx := ctx
  entryMessage := FixServer.Sample.newOrderSingle "C1" 2
  order := ⟨"C1", "A", .eurusd, .buy, 3, .finite 10⟩
  between := between
  cancelCtx := cancelCtx
  cancelMessage := cancelRequest "C1" 3
  cancel := ⟨"B", "", 1, .eurusd, .buy, 1704164645000000000⟩
  after := [.work .eurusd fun _ => 0]

def settledRun : CancelRun := cancelRun [.work .eurusd fun _ => 0, .deliver .eurusd] ctxAfter

def lostRun : CancelRun := cancelRun [] (FixServer.Sample.ctx 2)

/-- A test for `Receives`, in one evaluation. -/
theorem receives_of {σ : Exchange} {sessionId : ConnectionID} {fixMessage : Message}
    (h : (σ.server.running && (σ.server.sessions sessionId).isSome &&
      FixSession.isLoggedOn σ.server.manager sessionId &&
        (FixSession.msgSeqNum fixMessage).isSome) = true) : σ.Receives sessionId fixMessage := by
  simp only [Bool.and_eq_true] at h
  exact ⟨h.1.1.1, h.1.1.2, h.1.2, h.2⟩

theorem entryReceived (between : List ExchangeEvent) (cancelCtx : HandlerContext) :
    (cancelRun between cancelCtx).atEntry.Receives 1 (FixServer.Sample.newOrderSingle "C1" 2) := by
  have hreceived : ((start none).run (entered.take 5)).Receives 1
      (FixServer.Sample.newOrderSingle "C1" 2) := receives_of (by decide +kernel)
  exact hreceived

theorem entered_order : BinaryToOrderRequestConverter.convert
    (FixServer.Sample.newOrderSingle "C1" 2) = some ⟨"C1", "A", .eurusd, .buy, 3, .finite 10⟩ := by
  decide +kernel

theorem asked_cancel : BinaryToCancelOrderRequestConverter.convert 0 (cancelRequest "C1" 3) =
    some ⟨"B", "", 1, .eurusd, .buy, 1704164645000000000⟩ := by
  decide +kernel

theorem valid_settledRun : settledRun.Valid where
  reads := by
    have hid : ctxAfter.nextId = ((start none).run entered).orderId + 1 := by decide +kernel
    have hreads : TotalRun.Meets step Reads (start none)
        (entered ++ [settledRun.cancelEvent, .work .eurusd fun _ => 0]) :=
      TotalRun.meets_append.mpr ⟨entered_reads, ⟨hid, finds_entered⟩, trivial, trivial⟩
    exact hreads
  entryReceived := entryReceived _ _
  entryType := by decide +kernel
  entered := entered_order
  betweenLive := by simp [settledRun, cancelRun, ExchangeEvent.Live]
  cancelReceived := receives_of (by decide +kernel)
  cancelType := by decide +kernel
  asked := asked_cancel
  names := Or.inl rfl
  afterLive := by simp [settledRun, cancelRun, ExchangeEvent.Live]
  drained := by
    have hempty : ∀ symbol ∈ Instrument.all, (settledRun.atEnd.queues symbol).isEmpty := by
      decide +kernel
    exact fun symbol => List.isEmpty_iff.mp (hempty symbol symbol.mem_all)

theorem valid_lostRun : lostRun.Valid where
  reads := by
    have hempty : ∀ symbol, (((start none).run (entered.take 6)).partitions
        symbol).orderManager = .empty := by
      intro symbol
      simp [run, entered, start, Partition.init]
    have hid : (FixServer.Sample.ctx 2).nextId =
        ((start none).run (entered.take 6)).orderId + 1 := by decide +kernel
    have hentered : TotalRun.Meets step Reads (start none) (entered.take 6) := by
      have hall := entered_reads
      rw [← List.take_append_drop 6 entered] at hall
      exact (TotalRun.meets_append.mp hall).1
    have hfinds : ∀ clientOrderId, ((start none).run (entered.take 6)).Finds clientOrderId
        ((FixServer.Sample.ctx 2).orderIdOf clientOrderId) := fun _ => finds_none hempty
    have hreads : TotalRun.Meets step Reads (start none)
        (entered.take 6 ++ [lostRun.cancelEvent, .work .eurusd fun _ => 0]) :=
      TotalRun.meets_append.mpr ⟨hentered, ⟨hid, hfinds⟩, trivial, trivial⟩
    exact hreads
  entryReceived := entryReceived _ _
  entryType := by decide +kernel
  entered := entered_order
  betweenLive := by simp [lostRun, cancelRun]
  cancelReceived := receives_of (by decide +kernel)
  cancelType := by decide +kernel
  asked := asked_cancel
  names := Or.inl rfl
  afterLive := by simp [lostRun, cancelRun, ExchangeEvent.Live]
  drained := by
    have hempty : ∀ symbol ∈ Instrument.all, (lostRun.atEnd.queues symbol).isEmpty := by
      decide +kernel
    exact fun symbol => List.isEmpty_iff.mp (hempty symbol symbol.mem_all)

def isRejection : Event Double → Bool
  | .published (.rejection _ _ _ _ _ _) => true
  | _ => false

end Sample

end Exchange

end BetaTrader
