import BetaTrader.Exchange.TradingCoreSpec

/-!
# What cancel and replace requests reach

A request is about the order it names, by its id or by a client order id, and
nothing compares the client that sent it with the client of that order.  All
other orders are safe from it: they trade with the replaced order or keep still.
-/

namespace BetaTrader

/-- What a cancel or replace request states about its order: an id, where `0`
stands for none, and a client order id. -/
def FixSession.statedOrder (utcOffset : ℤ) (fixMessage : Message) :
    Option (OrderID × ClientOrderID) :=
  match msgType fixMessage with
  | some 'F' => (BinaryToCancelOrderRequestConverter.convert utcOffset fixMessage).map fun request =>
      (request.orderID, if request.origClOrdID = "" then request.clOrdID else request.origClOrdID)
  | some 'G' => (BinaryToModifyOrderRequestConverter.convert utcOffset fixMessage).map fun request =>
      (request.orderID, request.origClOrdID)
  | _ => none

/-- The commands that requests lead to. -/
def Command.IsRequest {P : Type} : Command P → Prop
  | .newOrder _ => False
  | _ => True

namespace Partition

variable {P : Type}

/-- The trades that have been made since an earlier state. -/
def tradesSince (s s' : Partition P) : List (Trade P) :=
  (s'.journal.drop s.journal.length).flatMap Event.matchedTrades

/-- An order after a step that is not about it: it has its terms and what it has
not traded, and it is where it was as long as something of it is left. -/
structure Spares (s s' : Partition P) (id : OrderID) (order : Order P) : Prop where
  kept : ∃ order', s'.orderManager.lastSeen id = some order' ∧
    order.Trades (s.tradesSince s') id order' ∧
      (s'.orderManager.orderMap id = none → order'.remainingQuantity = 0)
  book : s.orderBook.Contains id → s'.orderBook.Contains id ∨ s'.orderManager.Exhausted id

theorem spares_refl {s : Partition P} {id : OrderID} {order : Order P}
    (horder : s.orderManager.orderMap id = some order) : s.Spares s id order where
  kept := ⟨order, OrderManager.lastSeen_of_orderMap horder,
    Order.Trades.none order (by simp [tradesSince]), by simp [horder]⟩
  book := Or.inl

theorem Extends.spares {cmd : Command P} {events : List (Event P)} {s s' : Partition P}
    (h : Extends cmd events s s') {id : OrderID} {order : Order P} (hne : id ≠ cmd.orderId)
    (horder : s.orderManager.orderMap id = some order) : s.Spares s' id order where
  kept := by
    rw [tradesSince, h.journal, List.drop_left]
    exact h.serves.kept id order hne horder
  book := h.book id hne

end Partition

namespace Exchange

/-- The orders of a kind are spared by a step. -/
def Spares (σ σ' : Exchange) (spared : Order Double → Prop) : Prop :=
  ∀ symbol id order, (σ.partitions symbol).orderManager.orderMap id = some order → spared order →
    (σ.partitions symbol).Spares (σ'.partitions symbol) id order

/-- The order that is named by an id, or by a client order id where there is no id. -/
def Names (σ : Exchange) (stated : OrderID × ClientOrderID) (id : OrderID) : Prop :=
  if stated.1 = 0 then σ.Finds stated.2 (some id) else id = stated.1

/-- A request leaves the partitions alone when it comes in, and it leads to one
command at most, which is about the order it names; the command, when it is
processed, spares all other orders, and makes no trade if it is a cancel. -/
structure RequestsStayWithin (σ : Exchange) : Prop where
  received : ∀ sessionId ctx fixMessage stated,
    σ.Reads (.server (.frame sessionId ctx fixMessage)) →
    FixSession.statedOrder ctx.utcOffset fixMessage = some stated →
    (σ.step (.server (.frame sessionId ctx fixMessage))).partitions = σ.partitions ∧
      ((σ.step (.server (.frame sessionId ctx fixMessage))).queues = σ.queues ∨
        ∃ symbol queued, queued.command.IsRequest ∧ σ.Names stated queued.command.orderId ∧
          (σ.step (.server (.frame sessionId ctx fixMessage))).queues =
            Function.update σ.queues symbol (σ.queues symbol ++ [queued]))
  processed : ∀ symbol clock queued rest, σ.queues symbol = queued :: rest →
    queued.command.IsRequest → σ.Spares (σ.step (.work symbol clock))
      fun order => order.coreOrderId ≠ queued.command.orderId
  cancelled : ∀ symbol clock cmd source rest, σ.queues symbol = ⟨.cancelOrder cmd, source⟩ :: rest →
    ∀ other, (σ.partitions other).tradesSince
      ((σ.step (.work symbol clock)).partitions other) = []

/-- Requests spare the orders of other clients. -/
def RespectsOwners (σ : Exchange) : Prop :=
  ∀ symbol clock queued rest source client, σ.queues symbol = queued :: rest →
    queued.command.IsRequest → queued.source = some source →
    source.connection.acceptedAs = some client →
    σ.Spares (σ.step (.work symbol clock)) fun order => order.senderCompID ≠ client

variable {σ : Exchange} {symbol : Instrument} {queued : QueuedCommand}
  {rest : List QueuedCommand}

/-- The command that a request leads to is about the order that the request names. -/
theorem names_of_submits {sessionId : ConnectionID} {ctx : HandlerContext} {fixMessage : Message}
    {stated : OrderID × ClientOrderID} {command : Command Double}
    (hfinds : ∀ clientOrderId, σ.Finds clientOrderId (ctx.orderIdOf clientOrderId))
    (hstated : FixSession.statedOrder ctx.utcOffset fixMessage = some stated)
    (h : FixSession.Submits ctx sessionId fixMessage command) :
    command.IsRequest ∧ σ.Names stated command.orderId := by
  have hresolve : ∀ stated : OrderID × ClientOrderID,
      FixSession.resolve ctx stated.1 stated.2 ≠ 0 →
        σ.Names stated (FixSession.resolve ctx stated.1 stated.2) := by
    intro stated hne
    unfold Names FixSession.resolve at *
    split_ifs at hne ⊢ with hzero
    · obtain ⟨id, hid⟩ : ∃ id, ctx.orderIdOf stated.2 = some id := by
        cases hfound : ctx.orderIdOf stated.2 with
        | none => simp [hfound] at hne
        | some id => exact ⟨id, rfl⟩
      rw [hid, Option.getD_some, ← hid]
      exact hfinds stated.2
    · rfl
  cases h with
  | newOrder htype hconvert => simp [FixSession.statedOrder, htype] at hstated
  | cancelOrder htype hconvert hid =>
      simp only [FixSession.statedOrder, htype, hconvert, Option.map_some, Option.some.injEq]
        at hstated
      subst hstated
      exact ⟨trivial, hresolve _ hid⟩
  | modifyOrder htype hconvert hid =>
      simp only [FixSession.statedOrder, htype, hconvert, Option.map_some, Option.some.injEq]
        at hstated
      subst hstated
      refine ⟨trivial, ?_⟩
      simp only [Command.orderId, FixSession.orderIdToModify] at hid ⊢
      split_ifs at hid ⊢ with horig
      · rw [Names, if_neg hid]
      · exact hresolve (_, _) hid

theorem request_received {sessionId : ConnectionID} {ctx : HandlerContext} {fixMessage : Message}
    {stated : OrderID × ClientOrderID}
    (hreads : σ.Reads (.server (.frame sessionId ctx fixMessage)))
    (hstated : FixSession.statedOrder ctx.utcOffset fixMessage = some stated) :
    (σ.step (.server (.frame sessionId ctx fixMessage))).partitions = σ.partitions ∧
      ((σ.step (.server (.frame sessionId ctx fixMessage))).queues = σ.queues ∨
        ∃ symbol queued, queued.command.IsRequest ∧ σ.Names stated queued.command.orderId ∧
          (σ.step (.server (.frame sessionId ctx fixMessage))).queues =
            Function.update σ.queues symbol (σ.queues symbol ++ [queued])) := by
  simp only [step]
  split_ifs with hrunning
  · refine ⟨serve_partitions _, ?_⟩
    rcases σ.serve_cases (.frame sessionId ctx fixMessage) with
      heq | ⟨sessionId', ctx', fixMessage', connection, command, hevent, _, _, hsubmits, _, _, heq⟩
    · exact Or.inl (by rw [heq])
    · obtain ⟨rfl, rfl, rfl⟩ := ServerEvent.frame.inj hevent
      obtain ⟨hrequest, hnames⟩ := names_of_submits hreads.2 hstated hsubmits
      rw [heq]
      have henter : ∀ τ : Exchange, τ.enter ⟨command, some ⟨sessionId, connection⟩⟩ = τ := by
        intro τ
        cases command with
        | newOrder cmd => cases hrequest
        | cancelOrder cmd => rfl
        | modifyOrder cmd => rfl
      rw [submit, henter]
      refine (submitCommand_cases _ _).imp (fun hsame => by rw [hsame]) ?_
      rintro ⟨symbol, hqueues⟩
      exact ⟨symbol, ⟨command, some ⟨sessionId, connection⟩⟩, hrequest, hnames, by rw [hqueues]⟩
  · exact ⟨rfl, Or.inl rfl⟩

/-- What the worker does with a request is work for the order the request is about. -/
theorem work_request (clock : Clock) (haddressed : σ.Addressed)
    (hqueue : σ.queues symbol = queued :: rest) (hrequest : queued.command.IsRequest) :
    (σ.step (.work symbol clock)).partitions = σ.partitions ∨
      ∃ events s, Partition.Extends queued.command events (σ.partitionOf symbol) s ∧
        (∀ cmd, queued.command = .cancelOrder cmd → events.flatMap Event.matchedTrades = []) ∧
        (σ.step (.work symbol clock)).partitions = Function.update σ.partitions symbol s := by
  have haddressed : (σ.partitionOf symbol).orderManager.Addressed := haddressed symbol
  simp only [step]
  split_ifs
  · rcases σ.work_cases symbol clock with heq | heq | ⟨queued', rest', s, _, hqueue', hprocess, heq⟩
    · exact Or.inl (by rw [heq])
    · exact Or.inl (by rw [heq])
    · obtain ⟨rfl, rfl⟩ := List.cons.inj (hqueue.symm.trans hqueue')
      refine Or.inr ?_
      cases hcommand : queued.command with
      | newOrder cmd =>
          rw [hcommand] at hrequest
          exact hrequest.elim
      | cancelOrder cmd =>
          rw [hcommand] at hprocess
          obtain ⟨events, hextends, hnone⟩ :=
            Partition.processCancelOrder_extends haddressed hprocess
          exact ⟨events, s, hextends, fun _ _ => hnone, by rw [heq]; rfl⟩
      | modifyOrder cmd =>
          rw [hcommand] at hprocess
          rcases Partition.processCommand_extends haddressed hprocess with
            ⟨events, hextends⟩ | ⟨_, events, hextends⟩ <;>
            exact ⟨events, s, hextends, by simp, by rw [heq]; rfl⟩
  · exact Or.inl rfl

theorem request_processed (clock : Clock) (haddressed : σ.Addressed)
    (hqueue : σ.queues symbol = queued :: rest) (hrequest : queued.command.IsRequest) :
    σ.Spares (σ.step (.work symbol clock))
      fun order => order.coreOrderId ≠ queued.command.orderId := by
  intro other id order horder hne
  rw [haddressed other id order horder] at hne
  rcases work_request clock haddressed hqueue hrequest with heq | ⟨events, s, hextends, _, heq⟩
  · rw [heq]
    exact Partition.spares_refl horder
  · rw [heq]
    by_cases hother : other = symbol
    · subst hother
      rw [Function.update_self]
      have hspares := hextends.spares hne horder
      exact ⟨hspares.kept, hspares.book⟩
    · rw [Function.update_of_ne hother]
      exact Partition.spares_refl horder

theorem cancel_processed (clock : Clock) (haddressed : σ.Addressed) {cmd : CancelOrder}
    {source : Option Source} (hqueue : σ.queues symbol = ⟨.cancelOrder cmd, source⟩ :: rest)
    (other : Instrument) :
    (σ.partitions other).tradesSince ((σ.step (.work symbol clock)).partitions other) = [] := by
  rcases work_request clock haddressed hqueue trivial with heq | ⟨events, s, hextends, hnone, heq⟩
  · simp [heq, Partition.tradesSince]
  · rw [heq]
    by_cases hother : other = symbol
    · subst hother
      have hdrop : s.journal.drop (σ.partitions other).journal.length = events := by
        rw [hextends.journal]
        exact List.drop_left
      rw [Function.update_self, Partition.tradesSince, hdrop]
      exact hnone cmd rfl
    · simp [Function.update_of_ne hother, Partition.tradesSince]

namespace Sample

/-- What the handlers read while there is no order. -/
def ctx : HandlerContext := FixServer.Sample.ctx 1

/-- What they read while there is the order `1` with the client order id `A`. -/
def ctxAfter : HandlerContext :=
  { nextId := 2, orderIdOf := fun clientOrderId => if clientOrderId = "A" then some 1 else none,
    now := 0, utcOffset := 0 }

/-- A cancel request for the order `1`. -/
def cancelRequest (compId : String) (msgSeqNum : UInt32) : Message :=
  OutboundMessageBuilder.buildMessage compId.toList "BETA_EXCHANGE".toList msgSeqNum ['F']
    (Text.close soh [FixUtils.field 11 ['B'], FixUtils.field 37 ['1'],
      FixUtils.field 55 "EURUSD".toList, FixUtils.field 54 ['1'],
      FixUtils.field 60 "20240102-03:04:05.000".toList]) 0

/-- Two clients log on, and the first of them enters an order. -/
def entered : List ExchangeEvent :=
  [.server (.loadConfig ["C1", "C2"]), .server .accept, .server .accept,
    .server (.frame 1 ctx (FixServer.Sample.logon "C1")),
    .server (.frame 2 ctx (FixServer.Sample.logon "C2")),
    .server (.frame 1 ctx (FixServer.Sample.newOrderSingle "C1" 2)),
    .work .eurusd fun _ => 0, .deliver .eurusd]

/-- The client presents the id of the order that the other one has entered. -/
def requested : List ExchangeEvent :=
  entered ++ [.server (.frame 2 ctxAfter (cancelRequest "C2" 2))]

theorem finds_none {clientOrderId : ClientOrderID}
    (h : ∀ symbol, (σ.partitions symbol).orderManager = .empty) : σ.Finds clientOrderId none := by
  intro symbol ptr order horder
  simp [h symbol] at horder

theorem entered_reads : TotalRun.Meets step Reads (start none) entered := by
  have hempty : ∀ symbol, ((start none).partitions symbol).orderManager = .empty := fun _ => rfl
  refine ⟨trivial, trivial, trivial, ⟨by decide +kernel, fun clientOrderId => finds_none ?_⟩,
    ⟨by decide +kernel, fun clientOrderId => finds_none ?_⟩,
    ⟨by decide +kernel, fun clientOrderId => finds_none ?_⟩, trivial, trivial, trivial⟩
  · simpa using hempty
  · simpa using hempty
  · simpa using hempty

/-- There is no order but the one with the id `1`. -/
theorem carries_entered : ((start none).run entered).Carries fun id _ => id = 1 := by
  have hstep : ∀ σ : Exchange, σ.Carries (fun id _ => id = 1) ∧ σ.Addressed →
      ∀ event ∈ entered,
        (σ.step event).Carries (fun id _ => id = 1) ∧ (σ.step event).Addressed := by
    rintro σ ⟨h, haddressed⟩ event hevent
    refine ⟨?_, addressed_step haddressed event⟩
    cases event with
    | server event =>
        have hid : ∀ sessionId ctx fixMessage, event = .frame sessionId ctx fixMessage →
            ctx.nextId = 1 := by
          rintro sessionId ctx fixMessage rfl
          simp only [entered, List.mem_cons, ExchangeEvent.server.injEq, ServerEvent.frame.injEq,
            reduceCtorEq, List.not_mem_nil, or_false, false_or] at hevent
          rcases hevent with ⟨_, rfl, _⟩ | ⟨_, rfl, _⟩ | ⟨_, rfl, _⟩ <;> rfl
        simp only [step]
        split_ifs
        · exact h.serve fun sessionId ctx fixMessage _ heq _ => hid sessionId ctx fixMessage heq
        · exact h
    | work symbol clock =>
        simp only [step]
        split_ifs
        · exact h.work haddressed symbol clock
        · exact h
    | deliver symbol =>
        simp only [step]
        split_ifs
        · exact h.deliver symbol
        · exact h
    | simulate cmd => simp [entered] at hevent
    | database => simp [entered] at hevent
    | restart seqRepo tradeId iteration => simp [entered] at hevent
  exact (List.foldlRecOn entered step ⟨carries_start none, addressed_run none []⟩
    fun σ hσ event hevent => hstep σ hσ event hevent).1

theorem finds_ctxAfter (hall : ∀ symbol, (σ.partitions symbol).AllOrders fun id _ => id = 1)
    (haddressed : σ.Addressed)
    (hnames : ∀ symbol, ((σ.partitions symbol).orderManager.orderMap 1).all fun order =>
      order.clientOrderId = "A")
    (hentered : ((σ.partitions .eurusd).orderManager.orderMap 1).isSome)
    (clientOrderId : ClientOrderID) : σ.Finds clientOrderId (ctxAfter.orderIdOf clientOrderId) := by
  by_cases hname : clientOrderId = "A"
  · have hanswer : ctxAfter.orderIdOf clientOrderId = some 1 := if_pos hname
    obtain ⟨order, horder⟩ := Option.isSome_iff_exists.mp hentered
    have hnamed := hnames .eurusd
    rw [horder, Option.all_some, decide_eq_true_eq] at hnamed
    rw [hanswer, hname]
    exact ⟨[], .eurusd, _, rfl, by simp, 1, order, horder, hnamed,
      haddressed .eurusd 1 order horder⟩
  · have hanswer : ctxAfter.orderIdOf clientOrderId = none := if_neg hname
    rw [hanswer]
    intro symbol ptr order horder
    have hid := hall symbol ptr order horder
    obtain rfl : ptr = 1 := (haddressed symbol ptr order horder).symm.trans hid
    have hnamed := hnames symbol
    rw [horder, Option.all_some, decide_eq_true_eq] at hnamed
    exact fun h => hname (h.symm.trans hnamed)

theorem finds_entered (clientOrderId : ClientOrderID) :
    ((start none).run entered).Finds clientOrderId (ctxAfter.orderIdOf clientOrderId) := by
  have hnames : ∀ symbol ∈ Instrument.all, ((((start none).run entered).partitions
      symbol).orderManager.orderMap 1).all (fun order => order.clientOrderId = "A") := by
    decide +kernel
  have hentered : ((((start none).run entered).partitions .eurusd).orderManager.orderMap
      1).isSome := by decide +kernel
  exact finds_ctxAfter carries_entered.partitions (addressed_run none entered)
    (fun symbol => hnames symbol symbol.mem_all) hentered clientOrderId

theorem requested_reads : TotalRun.Meets step Reads (start none) requested := by
  have hid : ctxAfter.nextId = ((start none).run entered).orderId + 1 := by decide +kernel
  exact TotalRun.meets_append.mpr ⟨entered_reads, ⟨hid, finds_entered⟩, trivial⟩

/-- The order a cancel command is about. -/
def cancelledId : Command Double → Option OrderID
  | .cancelOrder cmd => some cmd.orderId
  | _ => none

end Sample

end Exchange

end BetaTrader
