import BetaTrader.Exchange.CommandFrame
import BetaTrader.Exchange.SenderIdentity
import BetaTrader.Exchange.TradingCore

/-!
# Where orders are in the exchange

An order is in a queue, in a partition, in a task or in the orders table, and
from each of them it goes to the next with the id and the client it came with.
-/

namespace BetaTrader

/-! ## Loading -/

namespace OrderManager

variable {P : Type} {manager : OrderManager P} {ptr : OrderPtr} {order order' : Order P}

theorem addOrder_cases (h : (manager.addOrder order).2.orderMap ptr = some order') :
    manager.orderMap ptr = some order' ∨ (order' = order ∧ ptr = order.coreOrderId) := by
  unfold addOrder at h
  split_ifs at h with hfree
  · exact Or.inl h
  · by_cases hptr : ptr = order.coreOrderId
    · subst hptr
      exact Or.inr ⟨by simpa using h.symm, rfl⟩
    · exact Or.inl (by simpa [Function.update_of_ne hptr] using h)

theorem foldl_addOrder_cases {orders : List (Order P)}
    (h : (orders.foldl (fun manager order => (manager.addOrder order).2) manager).orderMap ptr =
      some order') :
    manager.orderMap ptr = some order' ∨ (order' ∈ orders ∧ ptr = order'.coreOrderId) := by
  induction orders generalizing manager with
  | nil => exact Or.inl h
  | cons order orders ih =>
      rcases ih h with h | ⟨hmem, hptr⟩
      · rcases addOrder_cases h with h | ⟨rfl, hptr⟩
        · exact Or.inl h
        · exact Or.inr ⟨List.mem_cons_self, hptr⟩
      · exact Or.inr ⟨List.mem_cons_of_mem _ hmem, hptr⟩

end OrderManager

namespace Partition

theorem startWith_orderManager {P : Type} [PriceArith P] (s : Partition P)
    (iteration : List OrderID) :
    (s.startWith iteration).orderManager = s.orderManager := by
  induction iteration generalizing s with
  | nil => rfl
  | cons id iteration ih =>
      refine (ih _).trans ?_
      dsimp only
      cases hinsert : s.insertInBook id with
      | none => rfl
      | some s' =>
          obtain ⟨⟨orderBook, refresh⟩, _, h⟩ := Option.bind_eq_some_iff.mp hinsert
          obtain rfl := Option.some.inj h
          rfl

section Carried

variable {P : Type} [PriceArith P] {φ : OrderID → ClientID → Prop} {s s' s'' : Partition P}
  {cmd : Command P} {clock : Clock} {events : List (Event P)}

/-- The orders of a partition, by their ids and clients. -/
def AllOrders (φ : OrderID → ClientID → Prop) (s : Partition P) : Prop :=
  ∀ ptr order, s.orderManager.orderMap ptr = some order → φ order.coreOrderId order.clientId

omit [PriceArith P] in
theorem AllOrders.extends (h : s.AllOrders φ) (haddressed : s.orderManager.Addressed)
    (hextends : Extends cmd events s s') :
    s'.AllOrders φ ∧ ∀ event ∈ events,
      event.Concerns (fun order => φ order.coreOrderId order.clientId) cmd := by
  constructor
  · intro ptr order' horder'
    obtain ⟨order, horder, hid, hclient, _⟩ := hextends.serves.identity ptr order' horder'
    rw [hid, hclient]
    exact h ptr order horder
  · refine fun event hevent => (hextends.concerns event hevent).mono fun order hknows => ?_
    obtain ⟨registered, hregistered, hclient⟩ := hknows
    rw [← haddressed _ _ hregistered, ← hclient]
    exact h _ registered hregistered

/-- A command passes on what holds of the orders. -/
theorem AllOrders.processCommand (h : s.AllOrders φ) (haddressed : s.orderManager.Addressed)
    (hnew : ∀ c, cmd = .newOrder c → φ c.order.coreOrderId c.order.clientId)
    (hprocess : Partition.processCommand clock s cmd = some s') :
    s'.orderManager.Addressed ∧ s'.AllOrders φ ∧ ∃ events, s'.journal = s.journal ++ events ∧
      ∀ event ∈ events, event.Concerns (fun order => φ order.coreOrderId order.clientId) cmd := by
  rcases processCommand_extends haddressed hprocess with
    ⟨events, hextends⟩ | ⟨_, events, hextends⟩
  · obtain ⟨hall, hconcerns⟩ := h.extends haddressed hextends
    exact ⟨hextends.addressed haddressed, hall, events, hextends.journal, hconcerns⟩
  · have hadmitted : (s.admitted cmd).AllOrders φ := by
      cases cmd with
      | newOrder c =>
          intro ptr order horder
          by_cases hptr : ptr = c.order.coreOrderId
          · subst hptr
            rw [admitted, withManager, OrderManager.write_orderMap_self] at horder
            rw [← Option.some.inj horder]
            exact hnew c rfl
          · rw [admitted, withManager, OrderManager.write_orderMap_of_ne _ _ hptr] at horder
            exact h ptr order horder
      | cancelOrder c => exact h
      | modifyOrder c => exact h
    have hjournal : (s.admitted cmd).journal = s.journal := by cases cmd <;> rfl
    obtain ⟨hall, hconcerns⟩ := hadmitted.extends (admitted_addressed haddressed cmd) hextends
    exact ⟨hextends.addressed (admitted_addressed haddressed cmd), hall, events,
      hjournal ▸ hextends.journal, hconcerns⟩

end Carried

/-- The orders of a partition that has been started come from the table. -/
theorem started_cases {orders : OrderTable Double} {symbol : Instrument} {tradeId : TradeID}
    {iteration : List OrderID} {ptr : OrderPtr} {order : Order Double}
    (h : (((Partition.init symbol tradeId).load (orders.loadOrdersForInstrument symbol)).startWith
      iteration).orderManager.orderMap ptr = some order) :
    ptr = order.coreOrderId ∧ ∃ row ∈ orders, order = row.toOrder := by
  rw [startWith_orderManager] at h
  rcases OrderManager.foldl_addOrder_cases h with h | ⟨hmem, hptr⟩
  · cases h
  · obtain ⟨row, hrow, rfl⟩ := List.mem_map.mp hmem
    exact ⟨hptr, row, (List.mem_filter.mp hrow).1, rfl⟩

end Partition

namespace Exchange

variable {σ σ' : Exchange} {φ ψ : OrderID → ClientID → Prop} {queued : QueuedCommand}

/-! ## Orders on their way -/

/-- What holds of the id and the client of every order in the exchange. -/
structure Carries (φ : OrderID → ClientID → Prop) (σ : Exchange) : Prop where
  partitions : ∀ symbol, (σ.partitions symbol).AllOrders φ
  queues : ∀ symbol, ∀ queued ∈ σ.queues symbol, ∀ cmd, queued.command = .newOrder cmd →
    φ cmd.order.coreOrderId cmd.order.clientId
  tasks : ∀ order, .saveOrder order ∈ σ.tasks → φ order.coreOrderId order.clientId
  orders : ∀ row ∈ σ.orders, φ row.coreOrderId.toUInt64 row.clientId

/-- Orders are registered under their own ids. -/
def Addressed (σ : Exchange) : Prop := ∀ symbol, (σ.partitions symbol).orderManager.Addressed

theorem Carries.mono (h : σ.Carries φ) (hsub : ∀ id client, φ id client → ψ id client) :
    σ.Carries ψ where
  partitions := fun symbol ptr order horder => hsub _ _ (h.partitions symbol ptr order horder)
  queues := fun symbol queued hqueued cmd hcmd => hsub _ _ (h.queues symbol queued hqueued cmd hcmd)
  tasks := fun order horder => hsub _ _ (h.tasks order horder)
  orders := fun row hrow => hsub _ _ (h.orders row hrow)

/-- An event that leaves the orders where they are. -/
theorem Carries.congr (h : σ.Carries φ) (hpartitions : σ'.partitions = σ.partitions)
    (hqueues : σ'.queues = σ.queues) (htasks : σ'.tasks = σ.tasks)
    (horders : σ'.orders = σ.orders) : σ'.Carries φ where
  partitions := by
    rw [hpartitions]
    exact h.partitions
  queues := by
    rw [hqueues]
    exact h.queues
  tasks := by
    rw [htasks]
    exact h.tasks
  orders := by
    rw [horders]
    exact h.orders

theorem carries_start (seqRepo : Option SequenceRepository) : (start seqRepo).Carries φ where
  partitions := by simp [start, Partition.init, Partition.AllOrders]
  queues := by simp [start]
  tasks := by simp [start]
  orders := by simp [start]

/-! ## Submitting -/

/-- A command is put into one queue, or it is dropped. -/
theorem submitCommand_cases (σ : Exchange) (queued : QueuedCommand) :
    σ.submitCommand queued = σ ∨ ∃ symbol, σ.submitCommand queued =
      { σ with queues := Function.update σ.queues symbol (σ.queues symbol ++ [queued]) } := by
  have henqueue : ∀ symbol, σ.enqueue symbol queued = σ ∨ σ.enqueue symbol queued =
      { σ with queues := Function.update σ.queues symbol (σ.queues symbol ++ [queued]) } := by
    intro symbol
    unfold enqueue
    split_ifs
    · exact Or.inr rfl
    · exact Or.inl rfl
  unfold submitCommand
  split
  · exact (henqueue _).imp_right fun h => ⟨_, h⟩
  · split
    · exact Or.inl rfl
    · exact (henqueue _).imp_right fun h => ⟨_, h⟩
  · split
    · exact Or.inl rfl
    · exact (henqueue _).imp_right fun h => ⟨_, h⟩

theorem mem_queues_submitCommand {symbol : Instrument} {other : QueuedCommand}
    (h : other ∈ (σ.submitCommand queued).queues symbol) :
    other ∈ σ.queues symbol ∨ other = queued := by
  rcases σ.submitCommand_cases queued with heq | ⟨symbol', heq⟩
  · exact Or.inl (heq ▸ h)
  · rw [heq] at h
    by_cases hsymbol : symbol = symbol'
    · subst hsymbol
      simpa using h
    · exact Or.inl (by simpa [Function.update_of_ne hsymbol] using h)

/-- What a submission changes. -/
theorem submit_eq (σ : Exchange) (queued : QueuedCommand) : σ.submit queued =
    { σ with
      orderId := (σ.enter queued).orderId
      origins := (σ.enter queued).origins
      queues := (σ.submit queued).queues } := by
  have henter : σ.enter queued = { σ with
      orderId := (σ.enter queued).orderId, origins := (σ.enter queued).origins } := by
    unfold enter
    split <;> rfl
  unfold submit
  rcases (σ.enter queued).submitCommand_cases queued with heq | ⟨symbol, heq⟩ <;> rw [heq, henter]

@[simp] theorem submit_server : (σ.submit queued).server = σ.server := by rw [submit_eq]

@[simp] theorem submit_partitions : (σ.submit queued).partitions = σ.partitions := by
  rw [submit_eq]

@[simp] theorem submit_outbox : (σ.submit queued).outbox = σ.outbox := by rw [submit_eq]

@[simp] theorem submit_tasks : (σ.submit queued).tasks = σ.tasks := by rw [submit_eq]

@[simp] theorem submit_orders : (σ.submit queued).orders = σ.orders := by rw [submit_eq]

@[simp] theorem submit_deliveries : (σ.submit queued).deliveries = σ.deliveries := by
  rw [submit_eq]

@[simp] theorem submit_orderId : (σ.submit queued).orderId = (σ.enter queued).orderId := by
  rw [submit_eq]

@[simp] theorem submit_origins : (σ.submit queued).origins = (σ.enter queued).origins := by
  rw [submit_eq]

theorem mem_queues_submit {symbol : Instrument} {other : QueuedCommand}
    (h : other ∈ (σ.submit queued).queues symbol) : other ∈ σ.queues symbol ∨ other = queued := by
  refine (mem_queues_submitCommand h).imp_left fun h => ?_
  unfold enter at h
  split at h <;> exact h

theorem Carries.submit (h : σ.Carries φ) (hqueued : ∀ cmd, queued.command = .newOrder cmd →
      φ cmd.order.coreOrderId cmd.order.clientId) : (σ.submit queued).Carries φ := by
  refine ⟨?_, fun symbol other hother => ?_, ?_, ?_⟩
  · simpa using h.partitions
  · rcases mem_queues_submit hother with hother | rfl
    · exact h.queues symbol other hother
    · exact hqueued
  · simpa using h.tasks
  · simpa using h.orders

/-! ## The events of the server -/

end Exchange

namespace FixServer

/-- An event leads to no command, or it is a frame that makes its session submit
one and leaves the connections alone. -/
theorem step_cases (server : FixServer) (event : ServerEvent) :
    (server.step event).submissions = server.submissions ∨
    ∃ sessionId ctx fixMessage connection command, event = .frame sessionId ctx fixMessage ∧
      server.sessions sessionId = some connection ∧
      FixSession.isLoggedOn server.manager sessionId = true ∧
      FixSession.Submits ctx sessionId fixMessage command ∧
      (server.step event).sessions = server.sessions ∧
      (server.step event).accepted = server.accepted ∧
      (server.step event).submissions = server.submissions ++
        [server.submission sessionId connection fixMessage command] := by
  unfold step
  split_ifs with hrunning
  · cases event with
    | accept => exact Or.inl rfl
    | frame sessionId ctx fixMessage =>
        simp only [receive]
        split
        · exact Or.inl rfl
        · next connection hconnection =>
            split
            · exact Or.inl rfl
            · next manager effects hframe =>
                rcases FixSession.handleFrame_cases hframe with
                  hquiet | ⟨n, command, _, hlogged, heq, hsubmits⟩
                · exact Or.inl (by simp [hquiet.commands])
                · obtain ⟨rfl, rfl⟩ := Prod.mk.inj heq
                  refine Or.inr ⟨sessionId, ctx, fixMessage, connection, command, rfl,
                    hconnection, hlogged, hsubmits, ?_, rfl, rfl⟩
                  exact Function.update_eq_self_iff.mpr hconnection.symm
    | malformed sessionId ctx error =>
        exact Or.inl (submissions_rejectMalformed sessionId ctx error)
    | disconnect sessionId => exact Or.inl rfl
    | outbound sessionId => exact Or.inl (submissions_sendTo sessionId)
    | loadConfig validClients => exact Or.inl rfl
  · exact Or.inl rfl

end FixServer

namespace Exchange

variable {σ : Exchange} {φ : OrderID → ClientID → Prop}

theorem serve_cases (σ : Exchange) (event : ServerEvent) :
    σ.serve event = { σ with server := σ.server.step event } ∨
    ∃ sessionId ctx fixMessage connection command, event = .frame sessionId ctx fixMessage ∧
      σ.server.sessions sessionId = some connection ∧
      FixSession.isLoggedOn σ.server.manager sessionId = true ∧
      FixSession.Submits ctx sessionId fixMessage command ∧
      (σ.server.step event).sessions = σ.server.sessions ∧
      (σ.server.step event).accepted = σ.server.accepted ∧
      σ.serve event = { σ with server := σ.server.step event }.submit
        ⟨command, some ⟨sessionId, connection⟩⟩ := by
  rcases σ.server.step_cases event with
    h | ⟨sessionId, ctx, fixMessage, connection, command, hevent, hconnection, hlogged, hsubmits,
      hsessions, haccepted, h⟩
  · exact Or.inl (by simp [serve, h])
  · refine Or.inr ⟨sessionId, ctx, fixMessage, connection, command, hevent, hconnection, hlogged,
      hsubmits, hsessions, haccepted, ?_⟩
    simp only [serve, h, List.drop_left, List.foldl_cons, List.foldl_nil]
    rfl

@[simp] theorem serve_partitions (event : ServerEvent) :
    (σ.serve event).partitions = σ.partitions := by
  rcases σ.serve_cases event with heq | ⟨_, _, _, _, _, _, _, _, _, _, _, heq⟩
  · rw [heq]
  · rw [heq, submit_partitions]

@[simp] theorem step_server_partitions (event : ServerEvent) :
    (σ.step (.server event)).partitions = σ.partitions := by
  simp only [step]
  split_ifs
  · exact serve_partitions event
  · rfl

/-! ## The worker -/

theorem work_cases (σ : Exchange) (symbol : Instrument) (clock : Clock) :
    σ.work symbol clock = σ ∨
    σ.work symbol clock = { σ with server := { σ.server with running := false } } ∨
    ∃ queued rest s, σ.outbox symbol = [] ∧ σ.queues symbol = queued :: rest ∧
      (σ.partitionOf symbol).processCommand clock queued.command = some s ∧
        σ.work symbol clock = σ.finish symbol queued rest s := by
  unfold work
  split
  · next queued rest houtbox hqueue =>
      split
      · exact Or.inr (Or.inl rfl)
      · next s hs => exact Or.inr (Or.inr ⟨queued, rest, s, houtbox, hqueue, hs, rfl⟩)
  · exact Or.inl rfl

@[simp] theorem work_orderId (σ : Exchange) (symbol : Instrument) (clock : Clock) :
    (σ.work symbol clock).orderId = σ.orderId := by
  rcases σ.work_cases symbol clock with heq | heq | ⟨_, _, _, _, _, _, heq⟩ <;> rw [heq]
  rfl

@[simp] theorem work_origins (σ : Exchange) (symbol : Instrument) (clock : Clock) :
    (σ.work symbol clock).origins = σ.origins := by
  rcases σ.work_cases symbol clock with heq | heq | ⟨_, _, _, _, _, _, heq⟩ <;> rw [heq]
  rfl

@[simp] theorem work_deliveries (σ : Exchange) (symbol : Instrument) (clock : Clock) :
    (σ.work symbol clock).deliveries = σ.deliveries := by
  rcases σ.work_cases symbol clock with heq | heq | ⟨_, _, _, _, _, _, heq⟩ <;> rw [heq]
  rfl

/-- What the command at the head of a queue does in its partition. -/
theorem Carries.processCommand {symbol : Instrument} {clock : Clock} {queued : QueuedCommand}
    {rest : List QueuedCommand} {s : Partition Double} (h : σ.Carries φ) (haddressed : σ.Addressed)
    (hqueue : σ.queues symbol = queued :: rest)
    (hprocess : (σ.partitionOf symbol).processCommand clock queued.command = some s) :
    s.orderManager.Addressed ∧ s.AllOrders φ ∧
      ∀ event ∈ s.journal.drop (σ.partitions symbol).journal.length,
        event.Concerns (fun order => φ order.coreOrderId order.clientId) queued.command := by
  have hall : (σ.partitionOf symbol).AllOrders φ := h.partitions symbol
  have haddressed' : (σ.partitionOf symbol).orderManager.Addressed := haddressed symbol
  obtain ⟨hs, hallS, events, hjournal, hevents⟩ := hall.processCommand haddressed'
    (h.queues symbol queued (by simp [hqueue])) hprocess
  have hdrop : s.journal.drop (σ.partitions symbol).journal.length = events := by
    rw [hjournal]
    exact List.drop_left
  exact ⟨hs, hallS, hdrop ▸ hevents⟩

theorem Carries.work (h : σ.Carries φ) (haddressed : σ.Addressed) (symbol : Instrument)
    (clock : Clock) : (σ.work symbol clock).Carries φ := by
  rcases σ.work_cases symbol clock with heq | heq | ⟨queued, rest, s, _, hqueue, hprocess, heq⟩
  · rwa [heq]
  · rw [heq]
    exact h.congr rfl rfl rfl rfl
  · obtain ⟨_, hall, hevents⟩ := h.processCommand haddressed hqueue hprocess
    rw [heq]
    refine ⟨fun other => ?_, fun other queued' hqueued' => ?_, fun order horder => ?_, h.orders⟩
    · by_cases hother : other = symbol
      · subst hother
        simpa [finish] using hall
      · simpa [finish, Function.update_of_ne hother] using h.partitions other
    · by_cases hother : other = symbol
      · subst hother
        apply h.queues other queued'
        rw [hqueue]
        exact List.mem_cons_of_mem _ (by simpa [finish] using hqueued')
      · exact h.queues other queued'
          (by simpa [finish, Function.update_of_ne hother] using hqueued')
    · rcases List.mem_append.mp horder with horder | horder
      · exact h.tasks order horder
      · obtain ⟨event, hevent, htask⟩ := List.mem_flatMap.mp horder
        have hconcerns := hevents event hevent
        cases event with
        | enqueued task =>
            obtain rfl := List.mem_singleton.mp htask
            exact hconcerns
        | published publication => simp [Event.tasks] at htask
        | refreshed refresh => simp [Event.tasks] at htask
        | matched trades => simp [Event.tasks] at htask

theorem Addressed.work (h : σ.Addressed) (symbol : Instrument) (clock : Clock) :
    (σ.work symbol clock).Addressed := by
  rcases σ.work_cases symbol clock with heq | heq | ⟨queued, rest, s, _, _, hprocess, heq⟩
  · rwa [heq]
  · rw [heq]
    exact h
  · have hall : (σ.partitionOf symbol).AllOrders fun _ _ => True := fun _ _ _ => trivial
    have haddressed : (σ.partitionOf symbol).orderManager.Addressed := h symbol
    obtain ⟨hs, _⟩ := hall.processCommand haddressed (fun _ _ => trivial) hprocess
    rw [heq]
    intro other
    by_cases hother : other = symbol
    · subst hother
      simpa [finish] using hs
    · simpa [finish, Function.update_of_ne hother] using h other

/-! ## The other threads -/

section Delivering

variable (σ : Exchange) (symbol : Instrument)

@[simp] theorem deliver_partitions : (σ.deliver symbol).partitions = σ.partitions := by
  unfold Exchange.deliver
  split <;> rfl

@[simp] theorem deliver_queues : (σ.deliver symbol).queues = σ.queues := by
  unfold Exchange.deliver
  split <;> rfl

@[simp] theorem deliver_orderId : (σ.deliver symbol).orderId = σ.orderId := by
  unfold Exchange.deliver
  split <;> rfl

@[simp] theorem deliver_origins : (σ.deliver symbol).origins = σ.origins := by
  unfold Exchange.deliver
  split <;> rfl

end Delivering

section Storing

variable (σ : Exchange)

@[simp] theorem executeTask_partitions : σ.executeTask.partitions = σ.partitions := by
  unfold Exchange.executeTask
  split <;> rfl

@[simp] theorem executeTask_queues : σ.executeTask.queues = σ.queues := by
  unfold Exchange.executeTask
  split <;> rfl

@[simp] theorem executeTask_outbox : σ.executeTask.outbox = σ.outbox := by
  unfold Exchange.executeTask
  split <;> rfl

@[simp] theorem executeTask_orderId : σ.executeTask.orderId = σ.orderId := by
  unfold Exchange.executeTask
  split <;> rfl

@[simp] theorem executeTask_origins : σ.executeTask.origins = σ.origins := by
  unfold Exchange.executeTask
  split <;> rfl

@[simp] theorem executeTask_deliveries : σ.executeTask.deliveries = σ.deliveries := by
  unfold Exchange.executeTask
  split <;> rfl

end Storing

theorem Carries.executeTask (h : σ.Carries φ) : σ.executeTask.Carries φ := by
  unfold Exchange.executeTask
  split
  · exact h
  · next task tasks htasks =>
      have hsaved : ∀ order, .saveOrder order ∈ task :: tasks →
          φ order.coreOrderId order.clientId := htasks ▸ h.tasks
      refine ⟨h.partitions, h.queues, fun order horder => ?_, fun row hrow => ?_⟩
      · exact hsaved order (List.mem_cons_of_mem _ horder)
      · rcases OrderTable.mem_execute hrow with ⟨row', hrow', hid, hclient⟩ | ⟨order, rfl, rfl⟩
        · rw [hid, hclient]
          exact h.orders row' hrow'
        · exact hsaved order List.mem_cons_self

theorem Carries.deliver (h : σ.Carries φ) (symbol : Instrument) : (σ.deliver symbol).Carries φ := by
  unfold Exchange.deliver
  split
  · exact h
  · exact h.congr rfl rfl rfl rfl

theorem Carries.serve {event : ServerEvent} (h : σ.Carries φ)
    (hnew : ∀ sessionId ctx fixMessage request, event = .frame sessionId ctx fixMessage →
      BinaryToOrderRequestConverter.convert fixMessage = some request →
      φ ctx.nextId (numberText sessionId.toNat)) : (σ.serve event).Carries φ := by
  rcases σ.serve_cases event with
    heq | ⟨sessionId, ctx, fixMessage, connection, command, hevent, _, _, hsubmits, _, _, heq⟩
  · rw [heq]
    exact h.congr rfl rfl rfl rfl
  · rw [heq]
    refine Carries.submit (h.congr rfl rfl rfl rfl) fun cmd hcmd => ?_
    cases hsubmits with
    | newOrder htype hconvert =>
        obtain rfl := Command.newOrder.inj hcmd
        exact hnew sessionId ctx fixMessage _ hevent hconvert
    | cancelOrder htype hconvert hid => cases hcmd
    | modifyOrder htype hconvert hid => cases hcmd

/-- All that a restart leaves comes from the table. -/
theorem carries_restart (horders : ∀ row ∈ σ.orders, φ row.coreOrderId.toUInt64 row.clientId)
    (hstored : ∀ id client, φ id client → φ id (cString client))
    (seqRepo : Option SequenceRepository) (tradeId : TradeID)
    (iteration : Instrument → List OrderID) : (σ.restart seqRepo tradeId iteration).Carries φ where
  partitions := by
    intro symbol ptr order horder
    obtain ⟨_, row, hrow, rfl⟩ := Partition.started_cases horder
    exact hstored _ _ (horders row hrow)
  queues := by simp [Exchange.restart]
  tasks := by simp [Exchange.restart]
  orders := horders

theorem addressed_restart (σ : Exchange) (seqRepo : Option SequenceRepository) (tradeId : TradeID)
    (iteration : Instrument → List OrderID) : (σ.restart seqRepo tradeId iteration).Addressed := by
  intro symbol ptr order horder
  obtain ⟨hptr, _⟩ := Partition.started_cases horder
  exact hptr.symm

theorem addressed_step (h : σ.Addressed) (event : ExchangeEvent) : (σ.step event).Addressed := by
  cases event with
  | server event =>
      simp only [step]
      split_ifs
      · intro symbol
        rw [serve_partitions]
        exact h symbol
      · exact h
  | simulate cmd =>
      simp only [step]
      split_ifs
      · intro symbol
        rw [submit_partitions]
        exact h symbol
      · exact h
  | work symbol clock =>
      simp only [step]
      split_ifs
      · exact h.work symbol clock
      · exact h
  | deliver symbol =>
      simp only [step]
      split_ifs
      · intro other
        rw [deliver_partitions]
        exact h other
      · exact h
  | database =>
      simp only [step]
      split_ifs
      · intro symbol
        rw [executeTask_partitions]
        exact h symbol
      · exact h
  | restart seqRepo tradeId iteration => exact σ.addressed_restart seqRepo tradeId iteration

/-- Orders are registered under their own ids, whatever has happened. -/
theorem addressed_run (seqRepo : Option SequenceRepository) (events : List ExchangeEvent) :
    ((start seqRepo).run events).Addressed := by
  have hstart : (start seqRepo).Addressed := by
    intro symbol ptr order horder
    cases horder
  exact List.foldlRecOn events step hstart fun σ hσ event _ => addressed_step hσ event

end Exchange

end BetaTrader
