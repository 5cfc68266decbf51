import BetaTrader.Exchange.CancelRouting

/-!
# Replaced orders and their client ids

A replace request gives its order a new client id, and the next request names the
order by it.  The command that the request leads to does not carry the new id, and
the order keeps the one that it was entered with.
-/

namespace BetaTrader

namespace Partition

variable {s s' : Partition Double} {cmd : Command Double} {clock : Clock} {id : OrderID}
  {order order' : Order Double}

/-- As long as an order is registered, no command changes its client id. -/
theorem clientOrderId_processCommand (haddressed : s.orderManager.Addressed)
    (horder : s.orderManager.orderMap id = some order)
    (h : processCommand clock s cmd = some s')
    (horder' : s'.orderManager.orderMap id = some order') :
    order'.clientOrderId = order.clientOrderId := by
  rcases processCommand_extends haddressed h with
    ⟨events, hextends⟩ | ⟨hfree, events, hextends⟩
  · obtain ⟨old, hold, _, _, hname⟩ := hextends.serves.identity id order' horder'
    rwa [Option.some.inj (hold.symm.trans horder)] at hname
  · obtain ⟨old, hold, _, _, hname⟩ := hextends.serves.identity id order' horder'
    have hadmitted : (s.admitted cmd).orderManager.orderMap id = s.orderManager.orderMap id := by
      cases cmd with
      | newOrder c =>
          refine OrderManager.write_orderMap_of_ne _ _ ?_
          rintro rfl
          cases (hfree c rfl).symm.trans horder
      | cancelOrder c => rfl
      | modifyOrder c => rfl
    rw [hadmitted] at hold
    rwa [Option.some.inj (hold.symm.trans horder)] at hname

end Partition

namespace OrderBook

variable {P : Type} {manager : OrderManager P} {id : OrderID} {found : Option OrderPtr}

theorem found_of_findAndErase {level level' : PriceLevel} (haddressed : manager.Addressed)
    (h : findAndErase manager id level = some (found, level')) (hid : id ∈ level) :
    found.isSome := by
  induction level generalizing found level' with
  | nil => cases hid
  | cons ptr orders ih =>
      obtain ⟨order, horder, h⟩ := Option.bind_eq_some_iff.mp h
      split_ifs at h with hfound
      · obtain ⟨rfl, rfl⟩ := Prod.mk.inj (Option.some.inj h)
        rfl
      · obtain ⟨⟨found', orders'⟩, hrest, h⟩ := Option.bind_eq_some_iff.mp h
        obtain ⟨rfl, rfl⟩ := Prod.mk.inj (Option.some.inj h)
        refine ih hrest ((List.mem_cons.mp hid).resolve_left ?_)
        rintro rfl
        exact hfound (haddressed _ _ horder)

theorem found_of_cancelInMap {map map' : PriceMap P} (haddressed : manager.Addressed)
    (h : cancelInMap manager id map = some (found, map')) (hid : id ∈ Levels.queue map) :
    found.isSome := by
  induction map generalizing found map' with
  | nil => simp at hid
  | cons l map ih =>
      obtain ⟨⟨found', orders⟩, hlevel, h⟩ := Option.bind_eq_some_iff.mp h
      cases found' with
      | some ptr =>
          obtain ⟨rfl, rfl⟩ := Prod.mk.inj (Option.some.inj h)
          rfl
      | none =>
          obtain ⟨⟨found'', map''⟩, hrest, h⟩ := Option.bind_eq_some_iff.mp h
          obtain ⟨rfl, rfl⟩ := Prod.mk.inj (Option.some.inj h)
          rw [Levels.queue_cons, List.mem_append] at hid
          refine ih hrest (hid.resolve_left fun hmem => ?_)
          cases found_of_findAndErase haddressed hlevel hmem

/-- A cancel finds an order that is in the book. -/
theorem found_of_cancelOrder {book book' : OrderBook P} {now : Timestamp}
    {refresh : Option (MarketDataIncrementalRefresh P)} (haddressed : manager.Addressed)
    (h : book.cancelOrder manager id now = some (book', refresh)) (hid : book.Contains id) :
    refresh.isSome := by
  obtain ⟨⟨found, bidMap⟩, hbid, h⟩ := Option.bind_eq_some_iff.mp h
  cases found with
  | some ptr =>
      obtain ⟨order, _, h⟩ := Option.bind_eq_some_iff.mp h
      rw [← (Prod.mk.inj (Option.some.inj h)).2]
      rfl
  | none =>
      obtain ⟨⟨found, askMap⟩, hask, h⟩ := Option.bind_eq_some_iff.mp h
      have hfound : found.isSome := by
        refine found_of_cancelInMap haddressed hask (hid.resolve_left fun hmem => ?_)
        cases found_of_cancelInMap haddressed hbid hmem
      obtain ⟨ptr, rfl⟩ := Option.isSome_iff_exists.mp hfound
      obtain ⟨order, _, h⟩ := Option.bind_eq_some_iff.mp h
      rw [← (Prod.mk.inj (Option.some.inj h)).2]
      rfl

end OrderBook

namespace Partition

variable {s s' : Partition Double} {clock : Clock} {cmd : CancelOrder}

/-- A cancel of an order that rests is reported. -/
theorem processCancelOrder_reports (haddressed : s.orderManager.Addressed)
    (h : processCommand clock s (.cancelOrder cmd) = some s')
    (hregistered : s.orderManager.orderMap cmd.orderId ≠ none)
    (hmem : s.orderBook.Contains cmd.orderId) :
    ∃ order, order.coreOrderId = cmd.orderId ∧
      .published (.execution order "CANCELED") ∈ s'.journal.drop s.journal.length := by
  obtain ⟨old, hold⟩ := Option.ne_none_iff_exists'.mp hregistered
  simp only [processCommand, processCancelOrder, OrderManager.getOrderById, hold,
    Option.bind_eq_bind, Option.bind_eq_some_iff] at h
  obtain ⟨⟨cancelled, s₁⟩, hcancel, order, horder, h⟩ := h
  obtain ⟨⟨orderBook, refresh⟩, hbook, hcancel⟩ := Option.bind_eq_some_iff.mp hcancel
  obtain ⟨refresh, rfl⟩ :=
    Option.isSome_iff_exists.mp (OrderBook.found_of_cancelOrder haddressed hbook hmem)
  obtain ⟨rfl, rfl⟩ := Prod.mk.inj (Option.some.inj hcancel)
  rw [if_pos rfl] at h
  obtain rfl := Option.some.inj h
  refine ⟨order, haddressed _ _ horder, ?_⟩
  simp [retire, publish, emit]

end Partition

namespace Exchange

variable {σ : Exchange} {event : ExchangeEvent} {events : List ExchangeEvent}
  {symbol : Instrument} {id : OrderID} {order order' : Order Double}

theorem clientOrderId_step (haddressed : σ.Addressed) (hlive : event.Live)
    (horder : (σ.partitions symbol).orderManager.orderMap id = some order)
    (horder' : ((σ.step event).partitions symbol).orderManager.orderMap id = some order') :
    order'.clientOrderId = order.clientOrderId := by
  rcases σ.step_partition_cases symbol hlive with hsame | ⟨clock, queued, _, hprocess⟩
  · rw [hsame, horder] at horder'
    rw [Option.some.inj horder']
  · exact Partition.clientOrderId_processCommand (s := σ.partitionOf symbol) (haddressed symbol)
      horder hprocess horder'

/-- An order that stays registered in a run keeps its client id. -/
theorem clientOrderId_run (haddressed : σ.Addressed) (hlive : ∀ event ∈ events, event.Live)
    (hstays : ∀ early late, events = early ++ late →
      ((σ.run early).partitions symbol).orderManager.orderMap id ≠ none)
    (horder : (σ.partitions symbol).orderManager.orderMap id = some order)
    (horder' : ((σ.run events).partitions symbol).orderManager.orderMap id = some order') :
    order'.clientOrderId = order.clientOrderId := by
  induction events generalizing σ order with
  | nil => rw [Option.some.inj (horder.symm.trans horder')]
  | cons event events ih =>
      obtain ⟨next, hnext⟩ := Option.ne_none_iff_exists'.mp (hstays [event] events rfl)
      have hstep : next.clientOrderId = order.clientOrderId :=
        clientOrderId_step haddressed (hlive event List.mem_cons_self) horder hnext
      rw [← hstep]
      refine ih (addressed_step haddressed event)
        (fun other hother => hlive other (List.mem_cons_of_mem _ hother))
        (fun early late heq => ?_) hnext horder'
      exact hstays (event :: early) late (by rw [heq, List.cons_append])

/-! ## Chains of replaces -/

/-- A message of a session, and what happens until the next one. -/
structure Turn where
  ctx : HandlerContext
  fixMessage : Message
  events : List ExchangeEvent

structure ReplaceTurn extends Turn where
  request : ModifyOrderRequest

structure CancelTurn extends Turn where
  request : CancelOrderRequest

/-- The message comes in. -/
def Turn.arrive (turn : Turn) (sessionId : ConnectionID) (σ : Exchange) : Exchange :=
  σ.step (.server (.frame sessionId turn.ctx turn.fixMessage))

def Turn.next (turn : Turn) (sessionId : ConnectionID) (σ : Exchange) : Exchange :=
  (turn.arrive sessionId σ).run turn.events

/-- A live order, the replaces of a session that follow each other's client ids, and
a cancel in the end. -/
structure ReplaceRun where
  seqRepo : Option SequenceRepository
  before : List ExchangeEvent
  symbol : Instrument
  orderId : OrderID
  clientOrderId : ClientOrderID
  sessionId : ConnectionID
  replaces : List ReplaceTurn
  cancel : CancelTurn

namespace ReplaceRun

variable (run : ReplaceRun)

def atFirst : Exchange := (start run.seqRepo).run run.before

/-- A message that names the order by `clientOrderId`, which no other order has; what
is in the queue of the order once it has come in is processed before the next one. -/
structure Asks (σ : Exchange) (turn : Turn) (clientOrderId : ClientOrderID) : Prop where
  reads : σ.Reads (.server (.frame run.sessionId turn.ctx turn.fixMessage))
  received : σ.Receives run.sessionId turn.fixMessage
  named : clientOrderId ≠ ""
  unique : ∀ symbol ptr order, (σ.partitions symbol).orderManager.orderMap ptr = some order →
    order.clientOrderId = clientOrderId → symbol = run.symbol ∧ ptr = run.orderId
  eventsLive : ∀ event ∈ turn.events, event.Live
  processed : (turn.arrive run.sessionId σ).queues run.symbol <+:
    (turn.arrive run.sessionId σ).taken run.symbol turn.events

/-- The order rests until the next message comes in. -/
structure AsksReplace (σ : Exchange) (turn : ReplaceTurn) (clientOrderId : ClientOrderID) : Prop
    extends run.Asks σ turn.toTurn clientOrderId where
  type : FixSession.msgType turn.fixMessage = some 'G'
  asked : BinaryToModifyOrderRequestConverter.convert turn.ctx.utcOffset turn.fixMessage =
    some turn.request
  unnumbered : turn.request.orderID = 0
  follows : turn.request.origClOrdID = clientOrderId
  rests : ∀ early late, turn.events = early ++ late →
    ((turn.arrive run.sessionId σ).run early).Rests run.symbol run.orderId

/-- The order rests until the turn of the cancel comes. -/
structure AsksCancel (σ : Exchange) (clientOrderId : ClientOrderID) : Prop
    extends run.Asks σ run.cancel.toTurn clientOrderId where
  type : FixSession.msgType run.cancel.fixMessage = some 'F'
  asked : BinaryToCancelOrderRequestConverter.convert run.cancel.ctx.utcOffset
    run.cancel.fixMessage = some run.cancel.request
  unnumbered : run.cancel.request.orderID = 0
  follows : run.cancel.request.origClOrdID = clientOrderId
  rests : ∀ early late, run.cancel.events = early ++ late →
    ((run.cancel.arrive run.sessionId σ).taken run.symbol early).length ≤
      (σ.queues run.symbol).length →
    ((run.cancel.arrive run.sessionId σ).run early).Rests run.symbol run.orderId

/-- Every message names the order by the client id that the last one has given it. -/
def Chain : Exchange → ClientOrderID → List ReplaceTurn → Prop
  | σ, clientOrderId, [] => run.AsksCancel σ clientOrderId
  | σ, clientOrderId, turn :: turns => run.AsksReplace σ turn clientOrderId ∧
      Chain (turn.next run.sessionId σ) turn.request.clOrdID turns

structure Valid : Prop where
  entered : ∃ order, (run.atFirst.partitions run.symbol).orderManager.orderMap run.orderId =
    some order ∧ order.clientOrderId = run.clientOrderId
  fresh : (run.clientOrderId :: run.replaces.map fun turn => turn.request.clOrdID).Nodup
  chain : run.Chain run.atFirst run.clientOrderId run.replaces

/-- The message puts the command into the queue of the order, and when the worker
comes to it, it reports that the command has been applied. -/
structure Applied (σ : Exchange) (turn : Turn) (command : Command Double) (action : String) :
    Prop where
  submitted : ∃ source, (turn.arrive run.sessionId σ).queues run.symbol =
    σ.queues run.symbol ++ [⟨command, source⟩]
  reported : ∃ early clock late source, turn.events = early ++ .work run.symbol clock :: late ∧
    (turn.arrive run.sessionId σ).taken run.symbol early = σ.queues run.symbol ∧
    ((turn.arrive run.sessionId σ).run early).takes run.symbol (.work run.symbol clock) =
      [⟨command, source⟩] ∧
    ∃ order, order.coreOrderId = run.orderId ∧ .published (.execution order action) ∈
      ((turn.arrive run.sessionId σ).run early).records run.symbol (.work run.symbol clock)

def replaceCommand (turn : ReplaceTurn) : Command Double :=
  .modifyOrder {
    clientId := numberText run.sessionId.toNat
    timestamp := turn.request.transactTime
    orderId := run.orderId
    newPrice := turn.request.price
    newQuantity := turn.request.orderQty }

def cancelCommand : Command Double :=
  .cancelOrder {
    clientId := numberText run.sessionId.toNat
    timestamp := run.cancel.request.transactTime
    orderId := run.orderId }

/-- All the requests are applied to the order. -/
def AllApplied : Exchange → List ReplaceTurn → Prop
  | σ, [] => run.Applied σ run.cancel.toTurn run.cancelCommand "CANCELED"
  | σ, turn :: turns => run.Applied σ turn.toTurn (run.replaceCommand turn) "REPLACED" ∧
      AllApplied (turn.next run.sessionId σ) turns

/-- A command about the order finds its way. -/
structure Routable : Prop where
  named : run.orderId ≠ 0
  found : run.atFirst.findPartitionForOrder run.orderId = some run.symbol
  room : (run.atFirst.queues run.symbol).length < commandQueueCapacity

variable {run} {turn : Turn} {clientOrderId : ClientOrderID} {command : Command Double}
  {action : String}

/-! ## A client id that no order has -/

/-- A message that names no order leads to nothing. -/
theorem not_applied_of_unknown (hasks : run.Asks σ turn clientOrderId)
    (hstated : FixSession.statedOrder turn.ctx.utcOffset turn.fixMessage =
      some (0, clientOrderId))
    (hnone : ∀ symbol ptr order, (σ.partitions symbol).orderManager.orderMap ptr = some order →
      order.clientOrderId ≠ clientOrderId) : ¬run.Applied σ turn command action := by
  rintro ⟨⟨source, hqueue⟩, _⟩
  rcases (request_received hasks.reads hstated).2 with
    hsame | ⟨symbol, queued, _, hnames, _⟩
  · rw [Turn.arrive, hsame] at hqueue
    exact List.cons_ne_nil _ _ (List.self_eq_append_right.mp hqueue)
  · obtain ⟨_, symbol, _, _, _, ptr, order, horder, hname, _⟩ := hnames
    exact hnone symbol ptr order horder hname

theorem AsksReplace.stated {turn : ReplaceTurn} (h : run.AsksReplace σ turn clientOrderId) :
    FixSession.statedOrder turn.ctx.utcOffset turn.fixMessage = some (0, clientOrderId) := by
  simp [FixSession.statedOrder, h.type, h.asked, h.unnumbered, h.follows]

theorem AsksCancel.stated (h : run.AsksCancel σ clientOrderId) :
    FixSession.statedOrder run.cancel.ctx.utcOffset run.cancel.fixMessage =
      some (0, clientOrderId) := by
  simp [FixSession.statedOrder, h.type, h.asked, h.unnumbered, h.follows, h.named]

/-- The order keeps its client id until the next message comes in. -/
theorem AsksReplace.keeps {turn : ReplaceTurn} (h : run.AsksReplace σ turn clientOrderId)
    (haddressed : σ.Addressed)
    (horder : (σ.partitions run.symbol).orderManager.orderMap run.orderId = some order) :
    ∃ next, ((turn.next run.sessionId σ).partitions run.symbol).orderManager.orderMap
      run.orderId = some next ∧ next.clientOrderId = order.clientOrderId := by
  have hstays := h.rests turn.events [] (List.append_nil _).symm
  obtain ⟨next, hnext⟩ := Option.ne_none_iff_exists'.mp hstays.1
  refine ⟨next, hnext, ?_⟩
  refine clientOrderId_run (addressed_step haddressed _) h.eventsLive
    (fun early late heq => (h.rests early late heq).1) ?_ hnext
  exact (congrArg (fun partitions => (partitions run.symbol).orderManager.orderMap run.orderId)
    (step_server_partitions _)).trans horder

/-- A client id that a replace has given is unknown when the next message comes in. -/
theorem not_allApplied_of_replaced {turn : ReplaceTurn} {turns : List ReplaceTurn}
    (haddressed : σ.Addressed)
    (horder : (σ.partitions run.symbol).orderManager.orderMap run.orderId = some order)
    (hfresh : turn.request.clOrdID ≠ order.clientOrderId)
    (h : run.Chain σ clientOrderId (turn :: turns)) : ¬run.AllApplied σ (turn :: turns) := by
  rintro ⟨_, hrest⟩
  obtain ⟨next, hnext, hname⟩ := h.1.keeps haddressed horder
  have hnone : ∀ second, run.Asks (turn.next run.sessionId σ) second turn.request.clOrdID →
      ∀ symbol ptr order, ((turn.next run.sessionId σ).partitions symbol).orderManager.orderMap
        ptr = some order → order.clientOrderId ≠ turn.request.clOrdID := by
    rintro second hasks symbol ptr other hother hsame
    obtain ⟨rfl, rfl⟩ := hasks.unique symbol ptr other hother hsame
    rw [Option.some.inj (hother.symm.trans hnext), hname] at hsame
    exact hfresh hsame.symm
  cases turns with
  | nil => exact not_applied_of_unknown h.2.toAsks h.2.stated (hnone _ h.2.toAsks) hrest
  | cons second turns =>
      exact not_applied_of_unknown h.2.1.toAsks h.2.1.stated (hnone _ h.2.1.toAsks) hrest.1

/-! ## A cancel by the client id that the order has -/

theorem AsksCancel.orderIdToCancel_eq (h : run.AsksCancel σ clientOrderId)
    (haddressed : σ.Addressed)
    (horder : (σ.partitions run.symbol).orderManager.orderMap run.orderId = some order)
    (hname : order.clientOrderId = clientOrderId) :
    FixSession.orderIdToCancel run.cancel.ctx run.cancel.request = run.orderId := by
  have hanswer : run.cancel.ctx.orderIdOf clientOrderId = some run.orderId := by
    have hfinds := h.reads.2 clientOrderId
    cases hfound : run.cancel.ctx.orderIdOf clientOrderId with
    | none =>
        rw [hfound] at hfinds
        exact absurd hname (hfinds run.symbol run.orderId order horder)
    | some id =>
        rw [hfound] at hfinds
        obtain ⟨_, symbol, _, _, _, ptr, other, hother, hsame, rfl⟩ := hfinds
        obtain ⟨rfl, rfl⟩ := h.unique symbol ptr other hother hsame
        rw [haddressed _ _ other hother]
  have hnamed : run.cancel.request.origClOrdID ≠ "" := h.follows ▸ h.named
  rw [FixSession.orderIdToCancel, if_neg hnamed, h.follows, FixSession.resolve,
    if_pos h.unnumbered, hanswer, Option.getD_some]

theorem queues_submit_cancel (σ : Exchange) (cmd : CancelOrder) (source : Option Source)
    (symbol : Instrument) : (σ.submit ⟨.cancelOrder cmd, source⟩).queues symbol =
      if σ.findPartitionForOrder cmd.orderId = some symbol ∧
          (σ.queues symbol).length < commandQueueCapacity then
        σ.queues symbol ++ [⟨.cancelOrder cmd, source⟩]
      else σ.queues symbol := by
  cases hfound : σ.findPartitionForOrder cmd.orderId with
  | none => simp [submit, enter, submitCommand, hfound]
  | some other =>
      simp only [submit, enter, submitCommand, hfound, enqueue, Option.some.injEq]
      by_cases hother : other = symbol
      · subst hother
        by_cases hroom : (σ.queues other).length < commandQueueCapacity <;> simp [hroom]
      · rw [if_neg fun h => hother h.1]
        by_cases hroom : (σ.queues other).length < commandQueueCapacity <;>
          simp [hroom, Function.update_of_ne (Ne.symm hother)]

/-- The cancel goes into the queue of the order, or nowhere. -/
theorem AsksCancel.arrive_queues (h : run.AsksCancel run.atFirst clientOrderId)
    (hid : FixSession.orderIdToCancel run.cancel.ctx run.cancel.request = run.orderId) :
    (¬run.Routable ∧ (run.cancel.arrive run.sessionId run.atFirst).queues run.symbol =
      run.atFirst.queues run.symbol) ∨
    (run.Routable ∧ ∃ source, (run.cancel.arrive run.sessionId run.atFirst).queues run.symbol =
      run.atFirst.queues run.symbol ++ [⟨run.cancelCommand, source⟩]) := by
  by_cases hzero : run.orderId = 0
  · refine Or.inl ⟨fun hroutable => hroutable.named hzero, ?_⟩
    simp only [Turn.arrive, step, h.received.running, if_true]
    rcases run.atFirst.serve_cases
        (.frame run.sessionId run.cancel.ctx run.cancel.fixMessage) with
      heq | ⟨_, _, _, _, _, hevent, _, _, hsubmits, _⟩
    · rw [heq]
    · obtain ⟨rfl, rfl, rfl⟩ := ServerEvent.frame.inj hevent
      cases hsubmits with
      | newOrder htype _ => cases h.type.symm.trans htype
      | cancelOrder _ hconvert hne =>
          obtain rfl := Option.some.inj (h.asked.symm.trans hconvert)
          exact absurd (hid.trans hzero) hne
      | modifyOrder htype _ _ => cases h.type.symm.trans htype
  · have hne : FixSession.orderIdToCancel run.cancel.ctx run.cancel.request ≠ 0 := by
      rw [hid]
      exact hzero
    have hsubmits : FixSession.Submits run.cancel.ctx run.sessionId run.cancel.fixMessage
        (.cancelOrder {
          clientId := numberText run.sessionId.toNat
          timestamp := run.cancel.request.transactTime
          orderId := FixSession.orderIdToCancel run.cancel.ctx run.cancel.request }) :=
      .cancelOrder h.type h.asked hne
    rw [hid] at hsubmits
    obtain ⟨server, source, hstep⟩ := step_of_submits h.received hsubmits
    have hqueues : (run.cancel.arrive run.sessionId run.atFirst).queues run.symbol = _ :=
      (congrArg (fun σ => σ.queues run.symbol) hstep).trans
        (queues_submit_cancel _ _ _ run.symbol)
    rw [hqueues]
    by_cases hroutable : run.Routable
    · exact Or.inr ⟨hroutable, source, if_pos ⟨hroutable.found, hroutable.room⟩⟩
    · exact Or.inl ⟨hroutable, if_neg fun hboth => hroutable ⟨hzero, hboth.1, hboth.2⟩⟩

/-- A cancel that is in the queue of a resting order is applied. -/
theorem AsksCancel.reported (h : run.AsksCancel σ clientOrderId) (haddressed : σ.Addressed)
    {source : Option Source} (hqueue : (run.cancel.arrive run.sessionId σ).queues run.symbol =
      σ.queues run.symbol ++ [⟨run.cancelCommand, source⟩]) :
    run.Applied σ run.cancel.toTurn run.cancelCommand "CANCELED" := by
  refine ⟨⟨source, hqueue⟩, ?_⟩
  obtain ⟨later, hlater⟩ := h.processed
  rw [hqueue, List.append_assoc, List.singleton_append] at hlater
  obtain ⟨early, event, late, xs, ys, hevents, hstep, hturn⟩ :=
    Fifo.exists_step_of_outputs hlater.symm
  obtain ⟨rfl, rfl, clock, rest, s, rfl, hrunning, _, hprocess, hwork⟩ := takes_eq_cons hstep
  rw [List.append_nil] at hturn
  have hrests := h.rests early (.work run.symbol clock :: late) hevents
    (congrArg List.length hturn.symm).le
  have haddressed' : ((run.cancel.arrive run.sessionId σ).run early).Addressed :=
    (addressed_step haddressed _).run early
  obtain ⟨order, hid, hreported⟩ := Partition.processCancelOrder_reports
    (s := ((run.cancel.arrive run.sessionId σ).run early).partitionOf run.symbol)
    (haddressed' run.symbol) hprocess hrests.1 hrests.2
  refine ⟨early, clock, late, source, hevents, hturn.symm, hstep, order, hid, ?_⟩
  have hpartition : (((run.cancel.arrive run.sessionId σ).run early).step
      (.work run.symbol clock)).partitions run.symbol = s := by
    have hrunning' : ((run.cancel.arrive run.sessionId σ).run early).server.running := hrunning
    have hwork' : ((run.cancel.arrive run.sessionId σ).run early).work run.symbol clock = _ :=
      hwork
    simp only [step, hrunning', if_true, hwork']
    exact Function.update_self _ _ _
  rw [records, hpartition]
  exact hreported

/-- All requests are applied exactly if there is no replace among them, and the cancel
finds its way. -/
theorem allApplied_iff (run : ReplaceRun) (h : run.Valid) :
    run.AllApplied run.atFirst run.replaces ↔ run.replaces = [] ∧ run.Routable := by
  obtain ⟨order, horder, hname⟩ := h.entered
  have haddressed : run.atFirst.Addressed := addressed_run run.seqRepo run.before
  have hchain := h.chain
  have hfresh := h.fresh
  cases hreplaces : run.replaces with
  | cons turn turns =>
      rw [hreplaces] at hchain hfresh
      refine iff_of_false ?_ fun hnil => List.cons_ne_nil _ _ hnil.1
      refine not_allApplied_of_replaced haddressed horder (fun hsame => ?_) hchain
      rw [hname] at hsame
      exact (List.nodup_cons.mp hfresh).1 (hsame ▸ List.mem_cons_self)
  | nil =>
      rw [hreplaces] at hchain
      have hcancel : run.AsksCancel run.atFirst run.clientOrderId := hchain
      rw [and_iff_right rfl]
      rcases hcancel.arrive_queues (hcancel.orderIdToCancel_eq haddressed horder hname) with
        ⟨hlost, hqueues⟩ | ⟨hroutable, source, hqueues⟩
      · refine iff_of_false ?_ hlost
        rintro ⟨⟨source, hqueue⟩, _⟩
        exact List.cons_ne_nil _ _ (List.self_eq_append_right.mp (hqueues.symm.trans hqueue))
      · exact iff_of_true (hcancel.reported haddressed hqueues) hroutable

end ReplaceRun

/-! ## A replaced order that its owner cannot name -/

namespace Sample

/-- A replace of the order "A", which is to be called "R". -/
def replaceRequest : Message :=
  OutboundMessageBuilder.buildMessage "C1".toList "BETA_EXCHANGE".toList 3 ['G']
    (Text.close soh [FixUtils.field 11 ['R'], FixUtils.field 41 ['A'], FixUtils.field 37 ['0'],
      FixUtils.field 55 "EURUSD".toList, FixUtils.field 54 ['1'], FixUtils.field 38 ['2'],
      FixUtils.field 40 ['2'], FixUtils.field 44 "10".toList,
      FixUtils.field 60 "20240102-03:04:05.000".toList]) 0

/-- A cancel of the order "R". -/
def cancelReplaced : Message :=
  OutboundMessageBuilder.buildMessage "C1".toList "BETA_EXCHANGE".toList 4 ['F']
    (Text.close soh [FixUtils.field 11 ['B'], FixUtils.field 41 ['R'], FixUtils.field 37 ['0'],
      FixUtils.field 55 "EURUSD".toList, FixUtils.field 54 ['1'],
      FixUtils.field 60 "20240102-03:04:05.000".toList]) 0

def replaceTurn : ReplaceTurn where
  ctx := ctxAfter
  fixMessage := replaceRequest
  events := [.work .eurusd fun _ => 0]
  request := ⟨"R", "A", 0, .eurusd, .buy, 2, .limit, .finite 10, 1704164645000000000⟩

def replaceRun : ReplaceRun where
  seqRepo := none
  before := entered
  symbol := .eurusd
  orderId := 1
  clientOrderId := "A"
  sessionId := 1
  replaces := [replaceTurn]
  cancel := ⟨⟨ctxAfter, cancelReplaced, []⟩, "B", "R", 0, .eurusd, .buy, 1704164645000000000⟩

@[simp] theorem replaceRun_sessionId : replaceRun.sessionId = 1 := rfl

@[simp] theorem replaceRun_symbol : replaceRun.symbol = .eurusd := rfl

@[simp] theorem replaceRun_orderId : replaceRun.orderId = 1 := rfl

theorem replaceRun_atFirst : replaceRun.atFirst = (start none).run entered := rfl

/-- The order `1` is the only one there is. -/
def Alone (σ : Exchange) : Prop :=
  ∀ symbol ptr order, (σ.partitions symbol).orderManager.orderMap ptr = some order →
    symbol = .eurusd ∧ ptr = 1

theorem alone_entered : Alone ((start none).run entered) := by
  intro symbol ptr order horder
  have hid := carries_entered.partitions symbol ptr order horder
  obtain rfl : ptr = 1 := (addressed_run none entered symbol ptr order horder).symm.trans hid
  refine ⟨?_, rfl⟩
  have hfound : ∀ symbol ∈ Instrument.all, ((((start none).run entered).partitions
      symbol).orderManager.orderMap 1).isSome → symbol = .eurusd := by
    decide +kernel
  exact hfound symbol symbol.mem_all (Option.isSome_iff_exists.mpr ⟨order, horder⟩)

def isNewOrder : Command Double → Bool
  | .newOrder _ => true
  | _ => false

theorem Alone.arrive {σ : Exchange} (h : Alone σ) (turn : Turn) (sessionId : ConnectionID) :
    Alone (turn.arrive sessionId σ) := by
  intro symbol ptr order horder
  apply h symbol ptr order
  rwa [Turn.arrive, step_server_partitions] at horder

theorem Alone.work {σ : Exchange} (h : Alone σ) (haddressed : σ.Addressed) (clock : Clock)
    (hqueue : (σ.queues .eurusd).all fun queued => !isNewOrder queued.command) :
    Alone (σ.step (.work .eurusd clock)) := by
  intro symbol ptr order horder
  simp only [step] at horder
  split_ifs at horder
  · rcases σ.work_takes .eurusd clock with
      ⟨_, _, heq⟩ | ⟨queued, rest, s, _, hqueued, hprocess, heq⟩
    · rw [heq] at horder
      exact h symbol ptr order horder
    · by_cases hsymbol : symbol = .eurusd
      · subst hsymbol
        have hafter : s.orderManager.orderMap ptr = some order := by
          simpa [heq, finish] using horder
        have hall : (σ.partitionOf .eurusd).AllOrders fun id _ => id = 1 := by
          intro ptr order horder
          rw [haddressed .eurusd ptr order horder]
          exact (h .eurusd ptr order horder).2
        rw [hqueued, List.all_cons, Bool.and_eq_true] at hqueue
        obtain ⟨haddressed', hall', _⟩ := hall.processCommand (haddressed .eurusd)
          (fun c hc => by simp [hc, isNewOrder] at hqueue) hprocess
        refine ⟨rfl, ?_⟩
        rw [← haddressed' ptr order hafter]
        exact hall' ptr order hafter
      · have hsame : (σ.partitions symbol).orderManager.orderMap ptr = some order := by
          simpa [heq, finish, Function.update_of_ne hsymbol] using horder
        exact h symbol ptr order hsame
  · exact h symbol ptr order horder

theorem Alone.finds {σ : Exchange} (h : Alone σ) (haddressed : σ.Addressed)
    (hnamed : ((σ.partitions .eurusd).orderManager.orderMap 1).map Order.clientOrderId = some "A")
    (clientOrderId : ClientOrderID) : σ.Finds clientOrderId (ctxAfter.orderIdOf clientOrderId) := by
  obtain ⟨order, horder, hname⟩ := Option.map_eq_some_iff.mp hnamed
  refine finds_ctxAfter (fun symbol ptr other hother => ?_) haddressed (fun symbol => ?_)
    (Option.isSome_iff_exists.mpr ⟨order, horder⟩) clientOrderId
  · rw [haddressed symbol ptr other hother]
    exact (h symbol ptr other hother).2
  · rw [Option.all_eq_true]
    intro other hother
    obtain ⟨rfl, _⟩ := h symbol 1 other hother
    rw [Option.some.inj (hother.symm.trans horder), hname]
    rfl

/-- The replace has come in, and then it has been processed. -/
def arrived : Exchange := replaceTurn.arrive 1 ((start none).run entered)

def replaced : Exchange := replaceTurn.next 1 ((start none).run entered)

theorem replaced_eq : replaced = arrived.step (.work .eurusd fun _ => 0) := by
  simp only [replaced, arrived, Turn.next, run, replaceTurn, List.foldl_cons, List.foldl_nil]

theorem addressed_arrived : arrived.Addressed := by
  rw [arrived, Turn.arrive]
  exact addressed_step (addressed_run none entered) _

theorem alone_replaced : Alone replaced := by
  have hqueue : (arrived.queues .eurusd).all fun queued => !isNewOrder queued.command := by
    decide +kernel
  have harrived : Alone arrived := by
    rw [arrived]
    exact alone_entered.arrive _ _
  rw [replaced_eq]
  exact harrived.work addressed_arrived _ hqueue

theorem run_nil (σ : Exchange) : σ.run [] = σ := rfl

theorem queues_prefix_taken {σ : Exchange} {symbol : Instrument} {events : List ExchangeEvent}
    (hlive : ∀ event ∈ events, event.Live) (hempty : ((σ.run events).queues symbol).isEmpty) :
    σ.queues symbol <+: σ.taken symbol events :=
  ⟨_, ((queuePassage symbol).left_of_content_eq_nil hlive (List.isEmpty_iff.mp hempty)).symm⟩

/-- A test for `Rests`, in one evaluation. -/
theorem rests_of {σ : Exchange} {symbol : Instrument} {id : OrderID}
    (h : ((σ.partitions symbol).orderManager.orderMap id).isSome ∧
      (σ.partitions symbol).orderBook.Contains id) : σ.Rests symbol id :=
  ⟨Option.isSome_iff_ne_none.mp h.1, h.2⟩

theorem asks_replace : replaceRun.AsksReplace ((start none).run entered) replaceTurn "A" where
  reads := ⟨by decide +kernel, finds_entered⟩
  received := receives_of (by decide +kernel)
  named := by decide
  unique := fun symbol ptr order horder _ => alone_entered symbol ptr order horder
  eventsLive := by simp [replaceTurn, ExchangeEvent.Live]
  processed := by
    have hempty : ((arrived.run replaceTurn.events).queues .eurusd).isEmpty := by decide +kernel
    have hlive : ∀ event ∈ replaceTurn.events, event.Live := by
      simp [replaceTurn, ExchangeEvent.Live]
    rw [replaceRun_sessionId, replaceRun_symbol, ← arrived]
    exact queues_prefix_taken hlive hempty
  type := by decide +kernel
  asked := by decide +kernel
  unnumbered := rfl
  follows := rfl
  rests := by
    have hfirst : arrived.Rests .eurusd 1 := rests_of (by decide +kernel)
    have hsecond : (arrived.run replaceTurn.events).Rests .eurusd 1 := rests_of (by decide +kernel)
    intro early late hevents
    rw [replaceRun_sessionId, replaceRun_symbol, replaceRun_orderId, ← arrived]
    rcases early with _ | ⟨event, early⟩
    · rw [run_nil]
      exact hfirst
    · rcases late with _ | ⟨other, late⟩
      · rw [hevents, List.append_nil] at hsecond
        exact hsecond
      · have hlength := congrArg List.length hevents
        simp [replaceTurn] at hlength

def cancelArrived : Exchange := replaceRun.cancel.arrive 1 replaced

theorem asks_cancel : replaceRun.AsksCancel replaced "R" where
  reads := by
    have haddressed : replaced.Addressed := by
      rw [replaced_eq]
      exact addressed_step addressed_arrived _
    exact ⟨by decide +kernel, alone_replaced.finds haddressed (by decide +kernel)⟩
  received := receives_of (by decide +kernel)
  named := by decide
  unique := fun symbol ptr order horder _ => alone_replaced symbol ptr order horder
  eventsLive := by simp [replaceRun]
  processed := by
    have hempty : (cancelArrived.queues .eurusd).isEmpty := by decide +kernel
    rw [replaceRun_sessionId, replaceRun_symbol, ← cancelArrived, List.isEmpty_iff.mp hempty]
    exact List.nil_prefix
  type := by decide +kernel
  asked := by decide +kernel
  unnumbered := rfl
  follows := rfl
  rests := by
    have hfirst : cancelArrived.Rests .eurusd 1 := rests_of (by decide +kernel)
    intro early late hevents _
    obtain ⟨rfl, _⟩ := List.append_eq_nil_iff.mp hevents.symm
    rw [replaceRun_sessionId, replaceRun_symbol, replaceRun_orderId, ← cancelArrived, run_nil]
    exact hfirst

theorem entered_order_A : ∃ order, (((start none).run entered).partitions
    .eurusd).orderManager.orderMap 1 = some order ∧ order.clientOrderId = "A" := by
  have hnamed : ((((start none).run entered).partitions .eurusd).orderManager.orderMap 1).map
      Order.clientOrderId = some "A" := by decide +kernel
  exact Option.map_eq_some_iff.mp hnamed

theorem valid_replaceRun : replaceRun.Valid := by
  have hchain : replaceRun.Chain ((start none).run entered) "A" [replaceTurn] := by
    rw [ReplaceRun.Chain, replaceRun_sessionId, ← replaced]
    exact ⟨asks_replace, asks_cancel⟩
  refine ⟨?_, by decide, ?_⟩
  · rw [replaceRun_atFirst, replaceRun_symbol, replaceRun_orderId]
    exact entered_order_A
  · rw [replaceRun_atFirst]
    exact hchain

end Sample

theorem ReplaceRun.allApplied_iff_sample : Sample.replaceRun.Valid ∧
    (Sample.replaceRun.AllApplied Sample.replaceRun.atFirst Sample.replaceRun.replaces ↔
      Sample.replaceRun.replaces = [] ∧ Sample.replaceRun.Routable) :=
  ⟨Sample.valid_replaceRun, ReplaceRun.allApplied_iff Sample.replaceRun Sample.valid_replaceRun⟩

/-- The owner of a replaced order asks for it by the client id of the replace, and the
cancel is lost. -/
theorem replaced_order_unknown : ¬∀ run : ReplaceRun, run.Valid →
    run.AllApplied run.atFirst run.replaces := by
  intro h
  obtain ⟨order, horder, hname⟩ := Sample.valid_replaceRun.entered
  have hfresh : Sample.replaceTurn.request.clOrdID ≠ order.clientOrderId := by
    rw [hname]
    decide
  have haddressed : Sample.replaceRun.atFirst.Addressed := addressed_run _ _
  exact ReplaceRun.not_allApplied_of_replaced haddressed horder hfresh
    Sample.valid_replaceRun.chain (h Sample.replaceRun Sample.valid_replaceRun)

end Exchange

end BetaTrader
