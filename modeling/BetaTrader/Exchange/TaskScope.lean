import BetaTrader.Exchange.CommandFrame
import BetaTrader.Exchange.OrderTable

/-!
# Which rows a command touches

The tasks of a command are about orders that are registered, or that it brings in.
Apart from the match no trade is recorded, and no trade id is drawn.
-/

namespace BetaTrader

variable {P : Type}

/-- The task that the event queues is about the row of the order. -/
def Event.Names (id : OrderID) : Event P → Prop
  | .enqueued (.saveOrder order) => order.coreOrderId = id
  | .enqueued (.updateOrder order) => order.coreOrderId = id
  | .enqueued (.removeOrder id') => id' = id
  | _ => False

theorem Event.act_of_not_names {id : OrderID} {event : Event P} (h : ¬event.Names id)
    (row : Option (OrderRow P)) : event.act id row = row := by
  cases event with
  | enqueued task =>
      cases task with
      | saveOrder order => exact if_neg h
      | updateOrder order => exact if_neg h
      | removeOrder id' => exact if_neg h
      | addTrade trade => rfl
  | _ => rfl

def OrderManager.Registers (manager : OrderManager P) (id : OrderID) : Prop :=
  manager.orderMap id ≠ none

namespace Partition

open Matcher

variable {s s' s'' : Partition P} {clock : Clock} {cmd : Command P}

/-- The events are no matches, and their tasks are about registered orders, provided
that orders are registered under their own ids. -/
def Scoped (s : Partition P) (events : List (Event P)) : Prop :=
  ∀ event ∈ events, event.matchedTrades = [] ∧
    (s.orderManager.Addressed → ∀ id, event.Names id → s.orderManager.Registers id)

/-- Work on registered orders, between two calls of the matcher. -/
structure Works (s s' : Partition P) : Prop where
  currentId : s'.currentId = s.currentId
  registers : ∀ id, s'.orderManager.Registers id → s.orderManager.Registers id
  addressed : s.orderManager.Addressed → s'.orderManager.Addressed
  journal : ∃ events, s'.journal = s.journal ++ events ∧ s.Scoped events

theorem Works.refl (s : Partition P) : Works s s where
  currentId := rfl
  registers := fun _ h => h
  addressed := fun h => h
  journal := ⟨[], (List.append_nil _).symm, fun _ h => nomatch h⟩

theorem Works.trans (h : Works s s') (h' : Works s' s'') : Works s s'' where
  currentId := h'.currentId.trans h.currentId
  registers := fun id hid => h.registers id (h'.registers id hid)
  addressed := fun haddressed => h'.addressed (h.addressed haddressed)
  journal := by
    obtain ⟨events, hjournal, hscoped⟩ := h.journal
    obtain ⟨events', hjournal', hscoped'⟩ := h'.journal
    refine ⟨events ++ events', by rw [hjournal', hjournal, List.append_assoc], ?_⟩
    intro event hevent
    rcases List.mem_append.mp hevent with hevent | hevent
    · exact hscoped event hevent
    · obtain ⟨htrades, hnames⟩ := hscoped' event hevent
      exact ⟨htrades, fun haddressed id hid =>
        h.registers id (hnames (h.addressed haddressed) id hid)⟩

/-- Work that leaves the orders alone. -/
theorem works_of_emitted {events : List (Event P)} (hid : s'.currentId = s.currentId)
    (hmanager : s'.orderManager = s.orderManager) (hjournal : s'.journal = s.journal ++ events)
    (hscoped : s.Scoped events) : Works s s' where
  currentId := hid
  registers := by rw [hmanager]; exact fun _ h => h
  addressed := by rw [hmanager]; exact fun h => h
  journal := ⟨events, hjournal, hscoped⟩

/-- An event that is about no row. -/
theorem scoped_singleton {event : Event P} (htrades : event.matchedTrades = [])
    (h : s.orderManager.Addressed → ∀ id, event.Names id → s.orderManager.Registers id) :
    s.Scoped [event] := by
  intro event' hevent
  obtain rfl := List.mem_singleton.mp hevent
  exact ⟨htrades, h⟩

theorem works_publish (s : Partition P) (publication : Publication P) :
    Works s (s.publish publication) :=
  works_of_emitted rfl rfl rfl (scoped_singleton rfl fun _ _ h => h.elim)

theorem works_publishRejection (s : Partition P) (orderId : OrderID) (clientId : ClientID)
    (symbol : Instrument) (side : OrderSide) (reason : String) :
    Works s (s.publishRejection clock orderId clientId symbol side reason) :=
  works_of_emitted rfl rfl rfl (scoped_singleton rfl fun _ _ h => h.elim)

theorem works_enqueue {task : DatabaseTask P}
    (h : s.orderManager.Addressed → ∀ id, (Event.enqueued task).Names id →
      s.orderManager.Registers id) : Works s (s.enqueue task) :=
  works_of_emitted rfl rfl rfl (scoped_singleton rfl h)

theorem works_postTradeUpdate (s : Partition P) (trade : Trade P) :
    Works s (s.postTradeUpdate trade) :=
  works_of_emitted rfl rfl rfl (scoped_singleton rfl fun _ _ h => h.elim)

/-- A task about an order that is registered. -/
theorem registers_of_addressed {ptr : OrderPtr} {order : Order P}
    (horder : s.orderManager.orderMap ptr = some order) (haddressed : s.orderManager.Addressed)
    {id : OrderID} (hid : order.coreOrderId = id) : s.orderManager.Registers id := by
  rw [OrderManager.Registers, ← hid, haddressed ptr order horder, horder]
  exact Option.some_ne_none order

theorem works_saveOrder {ptr : OrderPtr} {order : Order P}
    (horder : s.orderManager.orderMap ptr = some order) :
    Works s (s.enqueue (.saveOrder order)) :=
  works_enqueue fun haddressed _ hid => registers_of_addressed horder haddressed hid

theorem works_retire {id : OrderID}
    (h : s.orderManager.Addressed → s.orderManager.Registers id) : Works s (s.retire id) where
  currentId := rfl
  registers := by
    intro id' hid'
    rw [OrderManager.Registers, retire, OrderManager.removeOrderById_orderMap] at hid'
    split_ifs at hid' with heq
    · exact (hid' rfl).elim
    · exact hid'
  addressed := by
    intro haddressed id' order horder
    rw [retire, OrderManager.removeOrderById_orderMap] at horder
    split_ifs at horder with heq
    exact haddressed id' order horder
  journal := ⟨_, rfl, scoped_singleton rfl fun haddressed id' hid' => hid' ▸ h haddressed⟩

/-- An order is rewritten and keeps its id. -/
theorem works_write {ptr : OrderPtr} {order order' : Order P}
    (horder : s.orderManager.orderMap ptr = some order)
    (hid : order'.coreOrderId = order.coreOrderId) :
    Works s (s.withManager (s.orderManager.write ptr order')) where
  currentId := rfl
  registers := by
    intro id hregisters
    by_cases hptr : id = ptr
    · rw [OrderManager.Registers, hptr, horder]
      exact Option.some_ne_none order
    · rw [OrderManager.Registers, withManager, OrderManager.write_orderMap_of_ne _ _ hptr]
        at hregisters
      exact hregisters
  addressed := by
    intro haddressed id registered hregistered
    by_cases hptr : id = ptr
    · rw [hptr, withManager, OrderManager.write_orderMap_self] at hregistered
      rw [← Option.some.inj hregistered, hid, haddressed ptr order horder, hptr]
    · rw [withManager, OrderManager.write_orderMap_of_ne _ _ hptr] at hregistered
      exact haddressed id registered hregistered
  journal := ⟨[], (List.append_nil _).symm, fun _ h => nomatch h⟩

theorem works_retireIfFilled {ptr : OrderPtr} {order : Order P}
    (horder : s.orderManager.orderMap ptr = some order) :
    Works s (if order.remainingQuantity = 0 then s.retire order.coreOrderId else s) := by
  split_ifs
  · exact works_retire fun haddressed => registers_of_addressed horder haddressed rfl
  · exact .refl s

theorem works_bookTrade {trade : Trade P} (h : s.bookTrade trade = some s') : Works s s' := by
  unfold bookTrade at h
  split at h
  · next buyOrder sellOrder hbuy hsell =>
      simp only [Option.bind_eq_bind, Option.bind_eq_some_iff, Option.pure_def,
        Option.some.injEq] at h
      obtain ⟨sellOrder', hsell', rfl⟩ := h
      have hbuyer : Works s (s.enqueue (.updateOrder buyOrder)) :=
        works_enqueue fun haddressed _ => registers_of_addressed hbuy haddressed
      have hseller : Works (s.enqueue (.updateOrder buyOrder))
          ((s.enqueue (.updateOrder buyOrder)).enqueue (.updateOrder sellOrder)) :=
        works_enqueue fun haddressed id hid => registers_of_addressed hsell haddressed hid
      have hpublished := (hbuyer.trans hseller).trans
        (works_publish _ (.trade trade buyOrder sellOrder))
      exact (hpublished.trans (works_retireIfFilled hbuy)).trans (works_retireIfFilled hsell')
  · obtain rfl := Option.some.inj h
    exact .refl s

theorem works_bookTrades {postTrade : Partition P → Trade P → Partition P}
    (hpost : ∀ s trade, Works s (postTrade s trade)) {trades : List (Trade P)}
    (h : bookTrades postTrade s trades = some s') : Works s s' := by
  induction trades generalizing s with
  | nil =>
      obtain rfl := Option.some.inj h
      exact .refl s
  | cons trade trades ih =>
      obtain ⟨s₁, hbook, h⟩ := Option.bind_eq_some_iff.mp h
      exact ((hpost s trade).trans (works_bookTrade hbook)).trans (ih h)

theorem works_cancelInBook {id : OrderID} {found : Bool}
    (h : s.cancelInBook clock id = some (found, s')) : Works s s' := by
  obtain ⟨⟨orderBook, refresh⟩, _, h⟩ := Option.bind_eq_some_iff.mp h
  cases refresh with
  | none =>
      obtain ⟨rfl, rfl⟩ := Prod.mk.inj (Option.some.inj h)
      exact works_of_emitted rfl rfl (List.append_nil _).symm fun _ h => nomatch h
  | some refresh =>
      obtain ⟨rfl, rfl⟩ := Prod.mk.inj (Option.some.inj h)
      exact works_of_emitted rfl rfl rfl (scoped_singleton rfl fun _ _ h => h.elim)

section Handlers

variable [PriceArith P] {trades : List (Trade P)}

theorem works_insertIfOpen {ptr : OrderPtr} (h : s.insertIfOpen ptr = some s') : Works s s' := by
  unfold insertIfOpen at h
  split at h
  · obtain rfl := Option.some.inj h
    exact .refl s
  · split_ifs at h
    · obtain ⟨⟨orderBook, refresh⟩, _, h⟩ := Option.bind_eq_some_iff.mp h
      obtain rfl := Option.some.inj h
      exact works_of_emitted rfl rfl rfl (scoped_singleton rfl fun _ _ h => h.elim)
    · obtain rfl := Option.some.inj h
      exact .refl s

/-- What a handler does after the match. -/
theorem works_resume (h : s.resume trades cmd = some s') : Works s s' := by
  cases cmd with
  | newOrder c =>
      simp only [resume, Option.bind_eq_bind, Option.bind_eq_some_iff] at h
      obtain ⟨s₁, hbook, h⟩ := h
      have hbooked : Works s s₁ := works_bookTrades works_postTradeUpdate hbook
      obtain ⟨s₂, hinserted, rfl⟩ : ∃ s₂, Works s₁ s₂ ∧
          (if c.order.orderType = .market ∧
            s₂.orderManager.containsOrderById c.order.coreOrderId then
              s₂.retire c.order.coreOrderId else s₂) = s' := by
        split_ifs at h
        · obtain ⟨s₂, hinsert, h⟩ := Option.bind_eq_some_iff.mp h
          exact ⟨s₂, works_insertIfOpen hinsert, Option.some.inj h⟩
        · exact ⟨s₁, .refl s₁, Option.some.inj h⟩
      apply (hbooked.trans hinserted).trans
      split_ifs with hmarket
      · exact works_retire fun _ => Option.isSome_iff_ne_none.mp hmarket.2
      · exact .refl s₂
  | cancelOrder c =>
      obtain rfl := Option.some.inj h
      exact .refl s
  | modifyOrder c =>
      simp only [resume, Option.bind_eq_bind, Option.bind_eq_some_iff] at h
      obtain ⟨s₁, hbook, s₂, hinsert, h⟩ := h
      apply ((works_bookTrades (fun s _ => .refl s) hbook).trans (works_insertIfOpen hinsert)).trans
      split at h
      · obtain rfl := Option.some.inj h
        exact .refl s₂
      · next order horder =>
          obtain rfl := Option.some.inj h
          split_ifs
          · refine works_retire fun _ => ?_
            rw [OrderManager.Registers, ← OrderManager.getOrderById, horder]
            exact Option.some_ne_none order
          · exact .refl s₂

/-- What a handler does before the match, once the order is registered. -/
theorem works_matchCall {t : Partition P} {ptr : OrderPtr}
    (h : matchCall clock s cmd = some (t, ptr)) : Works (s.admitted cmd) t := by
  cases cmd with
  | newOrder c =>
      simp only [matchCall, Option.bind_eq_bind, Option.bind_eq_some_iff] at h
      obtain ⟨passed, _, h⟩ := h
      cases passed with
      | false => simp at h
      | true =>
          cases hfree : s.orderManager.orderMap c.order.coreOrderId with
          | some order =>
              simp [OrderManager.addOrder, OrderManager.containsOrderById, hfree] at h
          | none =>
              simp only [OrderManager.addOrder_eq hfree, Bool.not_true, Bool.false_eq_true,
                if_false, Option.pure_def, Option.some.injEq, Prod.mk.injEq] at h
              obtain ⟨rfl, rfl⟩ := h
              exact (works_saveOrder (OrderManager.write_orderMap_self _ _ _)).trans
                (works_publish _ _)
  | cancelOrder c => simp [matchCall] at h
  | modifyOrder c =>
      simp only [matchCall, Option.bind_eq_bind, Option.bind_eq_some_iff] at h
      obtain ⟨old, hold, ⟨cancelled, s₁⟩, hcancel, manager, hmanager, order, horder, h⟩ := h
      obtain ⟨rfl, rfl⟩ := Prod.mk.inj (Option.some.inj h)
      obtain ⟨old₁, hold₁, rfl⟩ := modify_eq_some hmanager
      have hremoved : Works s₁ (s₁.enqueue (.removeOrder c.orderId)) := by
        apply works_enqueue
        rintro _ id rfl
        rw [OrderManager.Registers, show s₁.orderManager.orderMap c.orderId = some old₁ from hold₁]
        exact Option.some_ne_none old₁
      have hwritten : Works (s₁.enqueue (.removeOrder c.orderId)) ((s₁.enqueue
          (.removeOrder c.orderId)).withManager (s₁.orderManager.write c.orderId
            (((old₁.setPrice c.newPrice).setOriginalQuantity c.newQuantity).setStatus .new))) :=
        works_write hold₁ rfl
      have hrewritten := ((works_cancelInBook hcancel).trans hremoved).trans hwritten
      exact (hrewritten.trans (works_saveOrder horder)).trans (works_publish _ _)

/-- A command that does not reach the matcher. -/
theorem works_of_no_matchCall (hcall : matchCall clock s cmd = none)
    (h : processCommand clock s cmd = some s') : Works s s' := by
  cases cmd with
  | newOrder c =>
      simp only [processCommand, processNewOrder, Option.bind_eq_bind,
        Option.bind_eq_some_iff] at h
      obtain ⟨passed, hpassed, h⟩ := h
      cases passed with
      | false =>
          obtain rfl := Option.some.inj h
          exact works_publishRejection ..
      | true =>
          cases hadd : s.orderManager.addOrder c.order with
          | mk added manager => cases added <;> simp [matchCall, hpassed, hadd] at hcall h
  | cancelOrder c =>
      simp only [processCommand, processCancelOrder] at h
      split at h
      · obtain rfl := Option.some.inj h
        exact works_publishRejection ..
      · simp only [Option.bind_eq_bind, Option.bind_eq_some_iff] at h
        obtain ⟨⟨cancelled, s₁⟩, hcancel, order, horder, h⟩ := h
        have hcancelled := works_cancelInBook hcancel
        split_ifs at h
        · obtain rfl := Option.some.inj h
          apply (hcancelled.trans (works_publish _ _)).trans
          apply works_retire
          intro _
          rw [OrderManager.Registers, show (s₁.publish _).orderManager.orderMap c.orderId =
            some order from horder]
          exact Option.some_ne_none order
        · obtain rfl := Option.some.inj h
          exact hcancelled.trans (works_publishRejection ..)
  | modifyOrder c =>
      cases hold : s.orderManager.getOrderById c.orderId with
      | none =>
          simp only [processCommand, processModifyOrder, hold] at h
          obtain rfl := Option.some.inj h
          exact works_publishRejection ..
      | some old =>
          simp only [processCommand, processModifyOrder, hold, Option.bind_eq_bind,
            Option.bind_eq_some_iff] at h
          obtain ⟨⟨cancelled, s₁⟩, hcancel, manager, hmanager, order, horder, _⟩ := h
          simp [matchCall, hold, hcancel, hmanager, horder] at hcall

end Handlers

end Partition

end BetaTrader
