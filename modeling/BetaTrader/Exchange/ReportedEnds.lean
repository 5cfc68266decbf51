import BetaTrader.Exchange.Reports

/-!
# The end of an order

A client that follows the reports should know which of its orders are open: the
last report about an order that is gone has a terminal status, the last one
about an order that is registered has not.  Two ways out of the order manager
are not reported: what a market order leaves is retired in silence, and so is an
order that is replaced with nothing.
-/

namespace BetaTrader

open ExecutionPublisher

variable {P : Type}

/-- The statuses that end an order. -/
def OrderStatus.Terminal (status : OrderStatus) : Prop :=
  status = .filled ∨ status = .cancelled ∨ status = .rejected

instance (status : OrderStatus) : Decidable status.Terminal :=
  inferInstanceAs (Decidable (_ ∨ _))

namespace Partition

open Matcher

/-- The order `id` has been accepted. -/
def Accepted (s : Partition P) (id : OrderID) : Prop :=
  ∃ report ∈ s.orderReports id, report.text = "NEW"

/-- The last reports tell which of the accepted orders are registered. -/
structure EndsReported [Zero P] (s : Partition P) : Prop where
  gone : ∀ id, s.Accepted id → s.orderManager.orderMap id = none →
    ∃ report, (s.reports id).getLast? = some report ∧ report.status.Terminal
  live : ∀ id order, s.orderManager.orderMap id = some order →
    ∃ report, (s.orderReports id).getLast? = some report ∧ ¬report.status.Terminal

/-- The order that a command takes to the matcher is not empty, and if it is a
market order it is filled. -/
def Concludes [FinitePrice P] (s : Partition P) (cmd : Command P) : Prop :=
  ∀ order ∈ s.incomingOrder cmd, order.openQuantity ≠ 0 ∧ (order.orderType = .market →
    order.openQuantity ≤ Allocation.total Order.openQuantity (s.crossing order))

section Steps

variable [FinitePrice P] {ids : List OrderID} {s s' : Partition P} {order : Order P}
  {cmd : Command P} {clock : Clock}

theorem concludes_iff (hinv : s.Invariant ids) (hcmd : Admissible ids cmd)
    (h : s.incomingOrder cmd = some order) : s.Concludes cmd ↔
      s.Remains order ∨ ((s.served order).openQuantity = 0 ∧ s.fills order ≠ []) := by
  have hopen : (s.served order).openQuantity = _ := served_openQuantity
  have hnil : s.fills order = [] → (s.served order).openQuantity = order.openQuantity :=
    served_of_fills_nil
  have hconcludes : s.Concludes cmd ↔ order.openQuantity ≠ 0 ∧ (order.orderType = .market →
      order.openQuantity ≤ Allocation.total Order.openQuantity (s.crossing order)) := by
    simp [Concludes, h]
  have hzero : order.openQuantity = 0 → s.fills order = [] := fun hz => by
    have hfills : s.fills order = Allocation.fills _ order.openQuantity _ := rfl
    rw [hfills, hz, Allocation.fills_zero]
  have htype : order.orderType = .limit ∨ order.orderType = .market := by
    rcases incomingOrder_cases hinv.sound hcmd h with
      ⟨_, _, _, _, _, _, htype⟩ | ⟨_, _, _, _, _, _, _, htype⟩
    · exact htype
    · exact Or.inl htype
  rw [hconcludes]
  constructor
  · rintro ⟨hne, hmarket⟩
    by_cases hleft : (s.served order).openQuantity = 0
    · exact Or.inr ⟨hleft, fun hfills => hne (hnil hfills ▸ hleft)⟩
    · refine Or.inl ⟨by omega, htype.resolve_right fun hm => ?_⟩
      have hle := hmarket hm
      omega
  · rintro (⟨hleft, hlimit⟩ | ⟨hleft, hfills⟩)
    · exact ⟨by omega, fun hm => by simp [hlimit] at hm⟩
    · exact ⟨fun hz => hfills (hzero hz), fun _ => by omega⟩

/-! ## The last reports after a command -/

/-- The last report about an executed order shows what the match made of it, or
its admission if it has not traded. -/
theorem lastReport_incoming (hinv : s.Invariant ids) (hcmd : Admissible ids cmd)
    (h : s.incomingOrder cmd = some order) (clock : Clock)
    {f : Event P → List (ExecutionReport P)} (hf : ReadsReports order.coreOrderId f) :
    ∃ report, ((s.executed clock order cmd).journal.flatMap f).getLast? = some report ∧
      (report.status.Terminal ↔
        (s.served order).openQuantity = 0 ∧ s.fills order ≠ []) := by
  rw [hf.executed_incoming hinv.sound hcmd h clock]
  by_cases hfills : s.fills order = []
  · refine ⟨admissionReport order cmd, ?_, ?_⟩
    · simp [hfills, bookedFills]
    · have hnew := (incomingOrder_quantity h).2
      refine iff_of_false ?_ fun hfilled => hfilled.2 hfills
      cases cmd <;> simp [admissionReport, publishExecution, hnew, OrderStatus.Terminal]
  · have hstatus := served_status hinv.sound hcmd h hfills
    have hbooked : bookedFills (s.served order) (s.fills order) ≠ [] := by
      rw [bookedFills]
      split_ifs <;> simp [hfills]
    have htrades : (s.prepared clock order cmd).trades clock order ≠ [] := by
      rw [← List.length_pos_iff, prepared_trades hinv.sound hcmd h, length_tradesOf,
        List.length_pos_iff]
      exact hfills
    have hzip : ((bookedFills (s.served order) (s.fills order)).zip
        ((s.prepared clock order cmd).trades clock order)).map (fun p =>
          tradeReport p.2 (s.served order) (s.served order).side.suffix) ≠ [] := by
      rw [Ne, List.map_eq_nil_iff, List.zip_eq_nil_iff]
      exact fun hnil => hnil.elim hbooked htrades
    refine ⟨_, by rw [List.getLast?_append, List.getLast?_cons_of_ne_nil hzip,
      List.getLast?_eq_some_getLast hzip]; rfl, ?_⟩
    obtain ⟨p, _, hp⟩ := List.mem_map.mp (List.getLast_mem hzip)
    have hshown : (tradeReport p.2 (s.served order) (s.served order).side.suffix).status =
        (s.served order).status := rfl
    rw [← hp, hshown, hstatus]
    by_cases hzero : (s.served order).openQuantity = 0 <;>
      simp [hzero, hfills, OrderStatus.Terminal]

/-- The last report about an order that a booked fill reaches shows what the
fill has left of it. -/
theorem lastReport_touched (hinv : s.Invariant ids) (hcmd : Admissible ids cmd)
    (h : s.incomingOrder cmd = some order) (clock : Clock) {g : Order P × ℕ}
    {f : Event P → List (ExecutionReport P)} (hf : ReadsReports g.1.coreOrderId f)
    (hg : g ∈ bookedFills (s.served order) (s.fills order)) :
    ∃ report, ((s.executed clock order cmd).journal.flatMap f).getLast? = some report ∧
      (report.status.Terminal ↔ g.2 = g.1.openQuantity) := by
  obtain ⟨trade, suffix, _, hreports⟩ := hf.executed_touched hinv.sound hcmd h clock hg
  have hle := (mem_fills hinv.sound hcmd h ((bookedFills_prefix_self _ _).subset hg)).2.2.2
  have hopen := Order.openQuantity_giveFill hle
  have hstatus : (tradeReport trade (g.1.giveFill g.2) suffix).status =
      if (g.1.giveFill g.2).remainingQuantity = 0 then .filled else .partiallyFilled := rfl
  refine ⟨_, by rw [hreports, List.getLast?_concat], ?_⟩
  simp only [hstatus, Order.remainingQuantity_eq_zero_iff]
  split_ifs with hzero
  · exact iff_of_true (Or.inl rfl) (by omega)
  · exact iff_of_false (by simp [OrderStatus.Terminal]) (by omega)

/-- An order other than the incoming one that is gone: it was before, or a booked
fill has taken all it had. -/
theorem gone_other (hinv : s.Invariant ids) (hcmd : Admissible ids cmd)
    (h : s.incomingOrder cmd = some order) (clock : Clock) (hends : s.EndsReported)
    {id : OrderID} (hid : id ≠ order.coreOrderId)
    (haccepted : (s.executed clock order cmd).Accepted id)
    (hgone : (s.executed clock order cmd).orderManager.orderMap id = none) :
    ∃ report, ((s.executed clock order cmd).reports id).getLast? = some report ∧
      report.status.Terminal := by
  rcases executed_other hinv.sound hcmd h clock hid with
    ⟨huntouched, hsame⟩ | ⟨f, hf, rfl, hold, ⟨hmem, hall, _⟩ | ⟨_, hnew⟩⟩
  · have hnot : id ∉ touchedIds (bookedFills (s.served order) (s.fills order)) := fun hmem =>
      huntouched (((bookedFills_prefix_self _ _).map _).subset hmem)
    have hreports : (s.executed clock order cmd).reports id = s.reports id :=
      (readsReports_reports id).executed_untouched hinv.sound hcmd h clock hid.symm hnot
    have horderReports : (s.executed clock order cmd).orderReports id = s.orderReports id :=
      (readsReports_orderReports id).executed_untouched hinv.sound hcmd h clock hid.symm hnot
    rw [hreports]
    rw [Accepted, horderReports] at haccepted
    exact hends.gone id haccepted (hsame ▸ hgone)
  · obtain ⟨report, hlast, hiff⟩ :=
      lastReport_touched hinv hcmd h clock (readsReports_reports _) hmem
    exact ⟨report, hlast, hiff.mpr hall⟩
  · simp [hnew] at hgone

/-- An order other than the incoming one that is registered was so before. -/
theorem registered_before (hinv : s.Invariant ids) (hcmd : Admissible ids cmd)
    (h : s.incomingOrder cmd = some order) (clock : Clock) {id : OrderID}
    (hid : id ≠ order.coreOrderId) {order' : Order P}
    (horder' : (s.executed clock order cmd).orderManager.orderMap id = some order') :
    ∃ old, s.orderManager.orderMap id = some old := by
  rcases executed_other hinv.sound hcmd h clock hid with ⟨_, hsame⟩ | ⟨f, _, _, hold, _⟩
  · exact ⟨order', hsame ▸ horder'⟩
  · exact ⟨f.1, hold⟩

/-- The fills booked for a registered order have left some of it. -/
theorem live_other (hinv : s.Invariant ids) (hcmd : Admissible ids cmd)
    (h : s.incomingOrder cmd = some order) (clock : Clock) (hends : s.EndsReported)
    {id : OrderID} (hid : id ≠ order.coreOrderId) {order' : Order P}
    (horder' : (s.executed clock order cmd).orderManager.orderMap id = some order') :
    ∃ report, ((s.executed clock order cmd).orderReports id).getLast? = some report ∧
      ¬report.status.Terminal := by
  by_cases hmem : id ∈ touchedIds (bookedFills (s.served order) (s.fills order))
  · obtain ⟨f, hf, rfl⟩ := List.mem_map.mp hmem
    obtain ⟨report, hlast, hiff⟩ :=
      lastReport_touched hinv hcmd h clock (readsReports_orderReports _) hf
    refine ⟨report, hlast, fun hterminal => ?_⟩
    have hfills := (bookedFills_prefix_self _ _).subset hf
    have hretired := (fill_mem_retiredIds hinv.sound hcmd h hfills).mpr ⟨hf, hiff.mp hterminal⟩
    have hall : (s.executed clock order cmd).orderManager.orderMap f.1.coreOrderId = _ :=
      afterAll_other hid
    rw [prepared_served hinv.sound hcmd h, prepared_fills hinv.sound hcmd h, if_pos hretired,
      horder'] at hall
    exact absurd hall (by simp)
  · have hreports : (s.executed clock order cmd).orderReports id = s.orderReports id :=
      (readsReports_orderReports id).executed_untouched hinv.sound hcmd h clock hid.symm hmem
    obtain ⟨old, hold⟩ := registered_before hinv hcmd h clock hid horder'
    rw [hreports]
    exact hends.live id old hold

/-- Registered orders have been accepted. -/
def RegisteredAccepted (s : Partition P) : Prop :=
  ∀ id order, s.orderManager.orderMap id = some order → s.Accepted id

theorem endsReported_executed (hinv : s.Invariant ids) (hcmd : Admissible ids cmd)
    (h : s.incomingOrder cmd = some order) (clock : Clock)
    (haccepted : (s.executed clock order cmd).Accepted order.coreOrderId)
    (hends : s.EndsReported) : (s.executed clock order cmd).EndsReported ↔ s.Concludes cmd := by
  have hincoming := executed_incoming hinv.sound hcmd h clock
  have hbooked := bookedFills_prefix_self (s.served order) (s.fills order)
  rw [concludes_iff hinv hcmd h]
  constructor
  · intro hends'
    by_contra hnot
    rw [not_or] at hnot
    rw [if_neg hnot.1] at hincoming
    obtain ⟨report, hlast, hterminal⟩ := hends'.gone _ haccepted hincoming
    obtain ⟨report', hlast', hiff⟩ :=
      lastReport_incoming hinv hcmd h clock (readsReports_reports order.coreOrderId)
    obtain rfl := Option.some.inj (hlast.symm.trans hlast')
    exact hnot.2 (hiff.mp hterminal)
  · intro hcond
    constructor
    · intro id haccepted' hgone
      by_cases hid : id = order.coreOrderId
      · subst hid
        obtain ⟨report, hlast, hiff⟩ :=
          lastReport_incoming hinv hcmd h clock (readsReports_reports order.coreOrderId)
        have hremains : ¬s.Remains order := fun hremains => by
          simp [hremains, hgone] at hincoming
        exact ⟨report, hlast, hiff.mpr (hcond.resolve_left hremains)⟩
      · exact gone_other hinv hcmd h clock hends hid haccepted' hgone
    · intro id order' horder'
      by_cases hid : id = order.coreOrderId
      · subst hid
        obtain ⟨report, hlast, hiff⟩ :=
          lastReport_incoming hinv hcmd h clock (readsReports_orderReports order.coreOrderId)
        have hremains : s.Remains order := by
          by_contra hremains
          simp [hremains, horder'] at hincoming
        refine ⟨report, hlast, fun hterminal => ?_⟩
        have hzero := (hiff.mp hterminal).1
        have hleft := hremains.1
        omega
      · exact live_other hinv hcmd h clock hends hid horder'

theorem accepted_executed (hinv : s.Invariant ids) (hcmd : Admissible ids cmd)
    (h : s.incomingOrder cmd = some order) (clock : Clock) {id : OrderID}
    (haccepted : s.Accepted id) : (s.executed clock order cmd).Accepted id := by
  have hreports : (s.executed clock order cmd).orderReports id = _ :=
    (readsReports_orderReports id).executed hinv.sound hcmd h clock
  obtain ⟨report, hmem, htext⟩ := haccepted
  exact ⟨report, hreports ▸ List.mem_append_left _ hmem, htext⟩

/-- A new order is accepted by its admission, a replaced one has been before. -/
theorem accepted_incoming (hinv : s.Invariant ids) (hcmd : Admissible ids cmd)
    (h : s.incomingOrder cmd = some order) (clock : Clock)
    (haccepted : s.RegisteredAccepted) :
    (s.executed clock order cmd).Accepted order.coreOrderId := by
  rcases incomingOrder_cases hinv.sound hcmd h with ⟨c, rfl, _⟩ | ⟨_, old, _, _, _, hold, _⟩
  · have hreports : (s.executed clock order (.newOrder c)).orderReports order.coreOrderId = _ :=
      (readsReports_orderReports _).executed_incoming hinv.sound hcmd h clock
    refine ⟨publishExecution order "NEW", ?_, rfl⟩
    rw [hreports]
    exact List.mem_append_right _ List.mem_cons_self
  · exact accepted_executed hinv hcmd h clock (haccepted _ old hold)

theorem registeredAccepted_executed (hinv : s.Invariant ids) (hcmd : Admissible ids cmd)
    (h : s.incomingOrder cmd = some order) (clock : Clock)
    (haccepted : s.RegisteredAccepted) :
    (s.executed clock order cmd).RegisteredAccepted := by
  intro id order' horder'
  by_cases hid : id = order.coreOrderId
  · rw [hid]
    exact accepted_incoming hinv hcmd h clock haccepted
  · obtain ⟨old, hold⟩ := registered_before hinv hcmd h clock hid horder'
    exact accepted_executed hinv hcmd h clock (haccepted id old hold)

/-- A rejection is the last report about its order, and a terminal one. -/
theorem endsReported_rejected (clientId : ClientID) (symbol : Instrument) (side : OrderSide)
    (reason : String) (orderId : OrderID) (hends : s.EndsReported) :
    (s.publishRejection clock orderId clientId symbol side reason).EndsReported where
  gone id haccepted hgone := by
    rw [reports_publishRejection]
    rw [Accepted, orderReports_publishRejection] at haccepted
    split_ifs
    · exact ⟨_, List.getLast?_concat, Or.inr (Or.inr rfl)⟩
    · rw [List.append_nil]
      exact hends.gone id haccepted hgone
  live id order horder := by
    rw [orderReports_publishRejection]
    exact hends.live id order horder

/-- A cancelled order is reported as cancelled. -/
theorem endsReported_cancelled {id : OrderID} (hid : order.coreOrderId = id)
    (hends : s.EndsReported) : (((s.cancelled clock id).publish
      (.execution order "CANCELED")).retire id).EndsReported where
  gone id' haccepted hgone := by
    have hreports : (((s.cancelled clock id).publish
        (.execution order "CANCELED")).retire id).reports id' = _ :=
      (readsReports_reports id').cancelled
    have horderReports : (((s.cancelled clock id).publish
        (.execution order "CANCELED")).retire id).orderReports id' = _ :=
      (readsReports_orderReports id').cancelled
    rw [hreports]
    by_cases hid' : order.coreOrderId = id'
    · rw [if_pos hid']
      exact ⟨_, List.getLast?_concat, Or.inr (Or.inl rfl)⟩
    · rw [if_neg hid', List.append_nil] at horderReports ⊢
      rw [Accepted, horderReports] at haccepted
      refine hends.gone id' haccepted ?_
      rw [retire_orderManager, OrderManager.removeOrderById_orderMap_of_ne] at hgone
      · exact hgone
      · exact fun heq => hid' (hid.trans heq.symm)
  live id' order' horder' := by
    obtain ⟨hne, hold⟩ := OrderManager.orderMap_of_removeOrderById horder'
    have horderReports : (((s.cancelled clock id).publish
        (.execution order "CANCELED")).retire id).orderReports id' = _ :=
      (readsReports_orderReports id').cancelled
    rw [horderReports, if_neg fun heq => hne (heq.symm.trans hid), List.append_nil]
    exact hends.live id' order' hold

/-- The ends of orders stay reported exactly when the command does not retire an
order in silence. -/
theorem endsReported_step (hinv : s.Invariant ids) (hcmd : Admissible ids cmd)
    (haccepted : s.RegisteredAccepted) (h : processCommand clock s cmd = some s') :
    s'.RegisteredAccepted ∧ (s.EndsReported → (s'.EndsReported ↔ s.Concludes cmd)) := by
  rcases processCommand_cases hinv.sound hcmd clock with
    ⟨hincoming, _, _, _, _, heq⟩ | ⟨c, order, rfl, horder, _, heq⟩ | ⟨order, hincoming, heq⟩
  · obtain rfl := Option.some.inj (heq.symm.trans h)
    refine ⟨fun id order horder => ?_, fun hends => ?_⟩
    · rw [Accepted, orderReports_publishRejection]
      exact haccepted id order horder
    · exact iff_of_true (endsReported_rejected _ _ _ _ _ hends) (by simp [Concludes, hincoming])
  · obtain rfl := Option.some.inj (heq.symm.trans h)
    have hid := (hinv.managed _ order horder).1
    refine ⟨fun id order' horder' => ?_, fun hends => ?_⟩
    · obtain ⟨report, hmem, htext⟩ :=
        haccepted id order' (OrderManager.orderMap_of_removeOrderById horder').2
      refine ⟨report, ?_, htext⟩
      have hreports : (((s.cancelled clock c.orderId).publish
          (.execution order "CANCELED")).retire c.orderId).orderReports id = _ :=
        (readsReports_orderReports id).cancelled
      exact hreports ▸ List.mem_append_left _ hmem
    · exact iff_of_true (endsReported_cancelled hid hends) (by simp [Concludes, incomingOrder])
  · obtain rfl := Option.some.inj (heq.symm.trans h)
    exact ⟨registeredAccepted_executed hinv hcmd hincoming clock haccepted,
      endsReported_executed hinv hcmd hincoming clock
        (accepted_incoming hinv hcmd hincoming clock haccepted)⟩

omit [FinitePrice P] in
theorem endsReported_init [Zero P] (symbol : Instrument) (currentId : TradeID) :
    (init symbol currentId : Partition P).EndsReported where
  gone id haccepted _ := by simp [Accepted, orderReports, init] at haccepted
  live id order horder := by simp [init] at horder

end Steps

/-- The ends of all orders are reported after every command exactly when no
command retires an order in silence: no order is replaced with nothing, and no
market order is left open. -/
theorem ends_reported_iff [FinitePrice P] {commands : List (Command P)} (h : Valid commands)
    (clock : Clock) (symbol : Instrument) (currentId : TradeID) :
    ∃ s, processAll clock (init symbol currentId) commands = some s ∧
      (AfterEvery clock EndsReported (init symbol currentId) commands ↔
        Meets clock Concludes (init symbol currentId) commands) :=
  afterEvery_iff_meets clock (fun _ s => s.RegisteredAccepted) EndsReported Concludes
    (fun id order horder => by simp [init] at horder) (endsReported_init symbol currentId)
    (fun _ _ _ _ hinv hcmd haccepted hs' => endsReported_step hinv hcmd haccepted hs') h

theorem ends_reported_iff_sample :
    ∃ s, processAll (fun _ => 0) (init .eurusd 0) Sample.commands = some s ∧
      (AfterEvery (fun _ => 0) EndsReported (init .eurusd 0) Sample.commands ↔
        Meets (fun _ => 0) Concludes (init .eurusd 0) Sample.commands) :=
  ends_reported_iff Sample.valid_commands (fun _ => 0) .eurusd 0

namespace Sample

/-- A sell, and a market buy of more than the sell offers. -/
def marketRemainder : List (Command ℚ) :=
  [submit 1 "S1" .sell .limit 3 10, submit 2 "B1" .buy .market 5 10]

end Sample

/-- The market buy is gone, and its last report shows it partly filled. -/
theorem market_end_unreported :
    Valid Sample.marketRemainder ∧
      ∃ s, processAll (fun _ => 0) (init .eurusd 0) Sample.marketRemainder = some s ∧
        ¬s.EndsReported := by
  refine ⟨by decide, ?_⟩
  have hrun : (processAll (fun _ => 0) (init .eurusd 0) Sample.marketRemainder).map
      (fun s => (s.orderManager.orderMap 2, (s.orderReports 2).map ExecutionReport.text,
        (s.reports 2).getLast?.map ExecutionReport.status)) =
          some (none, ["NEW", "TRADE"], some .partiallyFilled) := by
    decide +kernel
  obtain ⟨s, hs, hparts⟩ := Option.map_eq_some_iff.mp hrun
  simp only [Prod.mk.injEq] at hparts
  obtain ⟨hgone, htexts, hlast⟩ := hparts
  refine ⟨s, hs, fun hends => ?_⟩
  have haccepted : s.Accepted 2 := by
    have hmem : "NEW" ∈ (s.orderReports 2).map ExecutionReport.text := by simp [htexts]
    obtain ⟨report, hreport, htext⟩ := List.mem_map.mp hmem
    exact ⟨report, hreport, htext⟩
  obtain ⟨report, hreport, hterminal⟩ := hends.gone 2 haccepted hgone
  rw [hreport, Option.map_some, Option.some.injEq] at hlast
  rw [hlast] at hterminal
  revert hterminal
  decide

end Partition

end BetaTrader
