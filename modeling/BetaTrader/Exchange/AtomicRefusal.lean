import BetaTrader.Exchange.Reports

/-!
# Refusals leave no trace

The worker refuses a command at different depths of its handlers: after the risk check,
before the order is looked up, or after the book has been searched for it.  Whichever it
is, the rejection is all that comes of the command, and a command of which more comes is
reported about its order.
-/

namespace BetaTrader

open ExecutionPublisher

variable {P : Type}

/-- Everything the callback receives in an event. -/
def Event.allReports [Zero P] : Event P → List (ExecutionReport P)
  | .published publication => publication.reports
  | _ => []

namespace Partition

open Matcher

/-- What is recorded from one state of a run to a later one. -/
def recorded (s s' : Partition P) : List (Event P) := s'.journal.drop s.journal.length

/-- The reports that are published from one state of a run to a later one. -/
def answers [Zero P] (s s' : Partition P) : List (ExecutionReport P) :=
  (s.recorded s').flatMap Event.allReports

/-- Neither the market data nor the database has been told anything, no trade id has been
drawn, and orders and book are what they were. -/
structure Untouched (s s' : Partition P) : Prop where
  noRefresh : ∀ refresh, .refreshed refresh ∉ s.recorded s'
  noTask : ∀ task, .enqueued task ∉ s.recorded s'
  currentId : s'.currentId = s.currentId
  orderManager : s'.orderManager = s.orderManager
  orderBook : s'.orderBook = s.orderBook

/-- What a command does from `s` to `s'` is all or nothing. -/
structure AllOrNothing [Zero P] (s : Partition P) (cmd : Command P) (s' : Partition P) :
    Prop where
  refused : ∀ report ∈ s.answers s', report.status = .rejected →
    s.answers s' = [report] ∧ s.Untouched s'
  answered : ¬s.Untouched s' → ∃ report ∈ s.answers s',
    report.exchangeOrderId = cmd.orderId ∧ report.status ≠ .rejected

section Recorded

variable {s s' : Partition P} {events : List (Event P)}

theorem recorded_eq (h : s'.journal = s.journal ++ events) : s.recorded s' = events := by
  rw [recorded, h, List.drop_left]

theorem recorded_flatMap {β : Type} {f : Event P → List β} {new : List β}
    (hjournal : s'.journal = s.journal ++ events)
    (h : s'.journal.flatMap f = s.journal.flatMap f ++ new) :
    (s.recorded s').flatMap f = new := by
  rw [hjournal, List.flatMap_append] at h
  rw [recorded_eq hjournal]
  exact List.append_cancel_left h

variable [Zero P] {report : ExecutionReport P}

theorem mem_answers_iff : report ∈ s.answers s' ↔
    report ∈ (s.recorded s').flatMap (Event.reports report.exchangeOrderId) := by
  have hevent : ∀ event : Event P, report ∈ event.allReports ↔
      report ∈ event.reports report.exchangeOrderId := by
    intro event
    cases event with
    | published publication => simp [Event.allReports, Event.reports, reportsAbout]
    | enqueued task => exact Iff.rfl
    | refreshed refresh => exact Iff.rfl
    | matched trades => exact Iff.rfl
  simp only [answers, List.mem_flatMap, hevent]

theorem answers_publishRejection (s : Partition P) (clock : Clock) (orderId : OrderID)
    (clientId : ClientID) (symbol : Instrument) (side : OrderSide) (reason : String) :
    s.answers (s.publishRejection clock orderId clientId symbol side reason) =
      [ExecutionPublisher.publishRejection orderId clientId symbol side reason
        (clock s.ticks)] := by
  rw [answers, recorded_eq rfl]
  rfl

omit [Zero P] in
theorem untouched_publishRejection (s : Partition P) (clock : Clock) (orderId : OrderID)
    (clientId : ClientID) (symbol : Instrument) (side : OrderSide) (reason : String) :
    s.Untouched (s.publishRejection clock orderId clientId symbol side reason) := by
  refine ⟨fun refresh => ?_, fun task => ?_, rfl, rfl, rfl⟩
  · rw [recorded_eq rfl]
    simp
  · rw [recorded_eq rfl]
    simp

/-- A command with an answer that is no rejection and about its order, and with no
rejection among its answers. -/
theorem AllOrNothing.of_answered {cmd : Command P} (report : ExecutionReport P)
    (hmem : report ∈ s.answers s') (hid : report.exchangeOrderId = cmd.orderId)
    (hnone : ∀ report ∈ s.answers s', report.status ≠ .rejected) : s.AllOrNothing cmd s' where
  refused := fun other hother hstatus => absurd hstatus (hnone other hother)
  answered := fun _ => ⟨report, hmem, hid, hnone report hmem⟩

end Recorded

theorem giveFill_status_ne (order : Order P) (amount : ℕ) :
    (order.giveFill amount).status ≠ .rejected := by
  rw [Order.giveFill, Order.setStatus]
  split_ifs
  · exact OrderStatus.noConfusion
  · exact OrderStatus.noConfusion

section Commands

variable [PriceArith P] {ids : List OrderID} {s s' : Partition P} {order : Order P}
  {cmd : Command P} {clock : Clock} {report : ExecutionReport P}

theorem admissionReport_status (h : s.incomingOrder cmd = some order) :
    (admissionReport order cmd).status = .new := by
  cases cmd with
  | newOrder c => rfl
  | cancelOrder c => cases h
  | modifyOrder c => exact (incomingOrder_quantity h).2

theorem orderId_of_incoming (hinv : s.Sound ids) (hcmd : Admissible ids cmd)
    (h : s.incomingOrder cmd = some order) : order.coreOrderId = cmd.orderId := by
  rcases incomingOrder_cases hinv hcmd h with ⟨c, rfl, rfl, _⟩ | ⟨c, _, rfl, _, hid, _⟩
  · rfl
  · exact hid.symm

/-- What is published when an order is executed: its admission, and then trades. -/
theorem mem_answers_executed (hinv : s.Sound ids) (hcmd : Admissible ids cmd)
    (h : s.incomingOrder cmd = some order) (clock : Clock) :
    report ∈ s.answers (s.executed clock order cmd) ↔ report ∈
      (if order.coreOrderId = report.exchangeOrderId then [admissionReport order cmd] else []) ++
        ((bookedFills (s.served order) (s.fills order)).zip
          ((s.prepared clock order cmd).trades clock order)).flatMap fun p =>
            fillReports (s.served order) report.exchangeOrderId p.1 p.2 := by
  rw [mem_answers_iff, recorded_flatMap executed_journal
    ((readsReports_reports report.exchangeOrderId).executed hinv hcmd h clock)]

theorem answers_executed_status (hinv : s.Sound ids) (hcmd : Admissible ids cmd)
    (h : s.incomingOrder cmd = some order)
    (hreport : report ∈ s.answers (s.executed clock order cmd)) : report.status ≠ .rejected := by
  rcases List.mem_append.mp ((mem_answers_executed hinv hcmd h clock).mp hreport) with
    hadmission | hfill
  · split_ifs at hadmission
    · rw [List.mem_singleton.mp hadmission, admissionReport_status h]
      exact OrderStatus.noConfusion
    · exact (List.not_mem_nil hadmission).elim
  · obtain ⟨p, hp, hfill⟩ := List.mem_flatMap.mp hfill
    have hmem : p.1 ∈ s.fills order :=
      (bookedFills_prefix_self _ _).subset (List.of_mem_zip hp).1
    obtain ⟨traded, side, heq, ⟨_, rfl⟩ | ⟨_, _, rfl⟩⟩ := mem_fillReports hfill
    · have hstatus : report.status = (s.served order).status := by rw [heq]; rfl
      rw [hstatus, served_status hinv hcmd h (List.ne_nil_of_mem hmem)]
      split_ifs
      · exact OrderStatus.noConfusion
      · exact OrderStatus.noConfusion
    · have hstatus : report.status = (p.1.1.giveFill p.1.2).status := by rw [heq]; rfl
      rw [hstatus]
      exact giveFill_status_ne _ _

theorem answers_cancelled (s : Partition P) (clock : Clock) (order : Order P) (id : OrderID) :
    s.answers (((s.cancelled clock id).publish (.execution order "CANCELED")).retire id) =
      [publishExecution order "CANCELED"] := by
  rw [answers, recorded_eq cancelled_journal, List.flatMap_append,
    flatMap_cancelEvents (fun _ => rfl)]
  rfl

/-- One command, at whatever depth its handler decides. -/
theorem processCommand_allOrNothing (hinv : s.Sound ids) (hcmd : Admissible ids cmd)
    (h : processCommand clock s cmd = some s') : s.AllOrNothing cmd s' := by
  rcases processCommand_cases hinv hcmd clock with
    ⟨_, clientId, symbol, side, reason, heq⟩ | ⟨c, order, rfl, horder, _, heq⟩ |
      ⟨order, hincoming, heq⟩
  · obtain rfl := Option.some.inj (heq.symm.trans h)
    have huntouched := untouched_publishRejection s clock cmd.orderId clientId symbol side reason
    refine ⟨fun report hreport _ => ⟨?_, huntouched⟩, fun htouched => absurd huntouched htouched⟩
    rw [answers_publishRejection] at hreport ⊢
    rw [List.mem_singleton.mp hreport]
  · obtain rfl := Option.some.inj (heq.symm.trans h)
    have hanswers := answers_cancelled s clock order c.orderId
    apply AllOrNothing.of_answered (publishExecution order "CANCELED")
    · rw [hanswers]
      exact List.mem_singleton_self _
    · exact (hinv.managed _ order horder).1
    · intro report hreport
      rw [hanswers] at hreport
      rw [List.mem_singleton.mp hreport]
      exact OrderStatus.noConfusion
  · obtain rfl := Option.some.inj (heq.symm.trans h)
    have hid : (admissionReport order cmd).exchangeOrderId = order.coreOrderId := by
      cases cmd <;> rfl
    apply AllOrNothing.of_answered (admissionReport order cmd)
    · rw [mem_answers_executed hinv hcmd hincoming, hid, if_pos rfl]
      exact List.mem_cons_self
    · exact hid.trans (orderId_of_incoming hinv hcmd hincoming)
    · exact fun report hreport => answers_executed_status hinv hcmd hincoming hreport

/-- After every run, every further command is refused without a trace or answered. -/
theorem refusals_atomic {commands : List (Command P)} (h : Valid (commands ++ [cmd]))
    (clock : Clock) (symbol : Instrument) (currentId : TradeID) :
    ∃ s s', processAll clock (init symbol currentId) commands = some s ∧
      processCommand clock s cmd = some s' ∧ s.AllOrNothing cmd s' := by
  obtain ⟨s, hs, hsound, _⟩ : ∃ s, processAll clock (init symbol currentId) commands = some s ∧
      s.Sound (newIds commands) ∧ True :=
    processAll_sound_induction (fun _ _ => True) trivial (fun _ _ _ _ _ _ _ _ => trivial)
      h.of_append
  have hcmd : Admissible (newIds commands) cmd := h.admissible
  obtain ⟨s', hs', _⟩ := processCommand_sound hsound hcmd clock
  exact ⟨s, s', hs, hs', processCommand_allOrNothing hsound hcmd hs'⟩

end Commands

/-- A cancel of an order that two fills have taken out of the book. -/
theorem refusals_atomic_sample :
    ∃ s s', processAll (fun _ => 0) (init .eurusd 0) Sample.twoFills = some s ∧
      processCommand (fun _ => 0) s (Sample.cancel 2) = some s' ∧
        s.AllOrNothing (Sample.cancel 2) s' :=
  refusals_atomic (by decide) (fun _ => 0) .eurusd 0

end Partition

end BetaTrader
