import BetaTrader.Client.BlotterFeed

/-!
# Reports about refused commands

A rejection does not know the client's id of the order, and puts the text of the
exchange's id in its place.  The reports about an order name it as the client does
unless a command about it is refused, or the two ids happen to be one text.
-/

namespace BetaTrader

open ExecutionPublisher Client

variable {P : Type}

/-- The rejections of commands about the order `id`. -/
def Event.rejections [Zero P] (id : OrderID) : Event P → List (ExecutionReport P)
  | .published (.rejection orderId clientId symbol side reason now) =>
      reportsAbout id [publishRejection orderId clientId symbol side reason now]
  | _ => []

namespace Partition

open Matcher

section Rejections

variable [Zero P] {s : Partition P} {id : OrderID} {report : ExecutionReport P}

/-- The reports that `publishRejection` emits about the order `id`. -/
def rejections (s : Partition P) (id : OrderID) : List (ExecutionReport P) :=
  s.journal.flatMap (Event.rejections id)

theorem mem_reports_iff :
    report ∈ s.reports id ↔ report ∈ s.orderReports id ∨ report ∈ s.rejections id := by
  have hevent : ∀ event : Event P, report ∈ event.reports id ↔
      report ∈ event.orderReports id ∨ report ∈ event.rejections id := by
    intro event
    cases event with
    | published publication =>
        cases publication <;>
          simp [Event.reports, Event.orderReports, Event.rejections, Publication.reports]
    | enqueued task => simp [Event.reports, Event.orderReports, Event.rejections]
    | refreshed refresh => simp [Event.reports, Event.orderReports, Event.rejections]
    | matched trades => simp [Event.reports, Event.orderReports, Event.rejections]
  simp only [reports, orderReports, rejections, List.mem_flatMap, hevent, and_or_left, exists_or]

/-- A rejection closes the order `id`, and names it by the text of the id. -/
theorem of_mem_rejections (h : report ∈ s.rejections id) :
    report.clientOrderId = idText id ∧ report.status = .rejected := by
  obtain ⟨event, _, hevent⟩ := List.mem_flatMap.mp h
  cases event with
  | published publication =>
      cases publication with
      | rejection orderId clientId symbol side reason now =>
          obtain ⟨hmem, hid⟩ := List.mem_filter.mp hevent
          obtain rfl := List.mem_singleton.mp hmem
          rw [← of_decide_eq_true hid]
          exact ⟨rfl, rfl⟩
      | execution order action => exact (List.not_mem_nil hevent).elim
      | trade trade buyOrder sellOrder => exact (List.not_mem_nil hevent).elim
  | enqueued task => exact (List.not_mem_nil hevent).elim
  | refreshed refresh => exact (List.not_mem_nil hevent).elim
  | matched trades => exact (List.not_mem_nil hevent).elim

theorem rejections_publishRejection (clock : Clock) (clientId : ClientID) (symbol : Instrument)
    (side : OrderSide) (reason : String) (orderId : OrderID) :
    (s.publishRejection clock orderId clientId symbol side reason).rejections id =
      s.rejections id ++ if orderId = id then
        [ExecutionPublisher.publishRejection orderId clientId symbol side reason (clock s.ticks)]
      else [] := by
  refine List.flatMap_append.trans (congrArg (s.rejections id ++ ·) ?_)
  by_cases hid : orderId = id <;>
    simp [Event.rejections, reportsAbout, ExecutionPublisher.publishRejection, hid]

theorem ignoresAdmission_rejections : IgnoresAdmission (Event.rejections (P := P) id) :=
  ⟨fun _ => rfl, fun _ => rfl, fun _ => rfl, fun _ => rfl, fun _ => rfl⟩

end Rejections

section Steps

variable [PriceArith P] {history : List (Command P)} {s s' : Partition P} {order : Order P}
  {cmd : Command P} {clock : Clock} {id : OrderID}

/-- The command is not refused: a new order passes the risk check, a cancel finds its
order in the book, and a replace finds it registered. -/
def Accepts (s : Partition P) : Command P → Prop
  | .newOrder c => RiskManager.preCheck s.orderManager c.order s.orderBook = some true
  | .cancelOrder c =>
      (s.orderManager.getOrderById c.orderId).isSome ∧ s.orderBook.Contains c.orderId
  | .modifyOrder c => (s.orderManager.getOrderById c.orderId).isSome

theorem rejections_executed (s : Partition P) (clock : Clock) (order : Order P)
    (cmd : Command P) (id : OrderID) :
    (s.executed clock order cmd).rejections id = s.rejections id := by
  have hpost : ∀ trade, (postEvents cmd trade).flatMap (Event.rejections id) = [] := by
    intro trade
    cases cmd <;> rfl
  have hfill : ∀ served (f : Order P × ℕ) trade,
      (fillEvents served f trade).flatMap (Event.rejections id) = [] := by
    intro served f trade
    simp [fillEvents, bookedEvents, Event.rejections, List.flatMap_map]
  rw [rejections, ignoresAdmission_rejections.executed,
    flatMap_bookingEvents_eq_nil _ hpost (hfill _)]
  exact List.append_nil _

theorem accepts_of_incomingOrder (h : s.incomingOrder cmd = some order) : s.Accepts cmd := by
  cases cmd with
  | newOrder c =>
      rw [incomingOrder] at h
      split_ifs at h with hpre
      exact hpre
  | cancelOrder c => cases h
  | modifyOrder c =>
      obtain ⟨old, hold, _⟩ := Option.map_eq_some_iff.mp h
      exact Option.isSome_iff_exists.mpr ⟨old, hold⟩

/-- A command is refused with a rejection, and otherwise none is published. -/
theorem processCommand_rejections (hinv : s.Sound (newIds history))
    (hcmd : Admissible (newIds history) cmd) (h : processCommand clock s cmd = some s') :
    (s.Accepts cmd ∧ ∀ id, s'.rejections id = s.rejections id) ∨
    (¬s.Accepts cmd ∧ ∃ clientId symbol side reason,
      s' = s.publishRejection clock cmd.orderId clientId symbol side reason) := by
  by_cases haccepts : s.Accepts cmd
  · refine Or.inl ⟨haccepts, fun id => ?_⟩
    cases cmd with
    | newOrder c =>
        have heq : processNewOrder clock c s = _ :=
          processNewOrder_eq hinv hcmd (if_pos haccepts)
        obtain rfl := Option.some.inj (heq.symm.trans h)
        exact rejections_executed s clock c.order _ id
    | cancelOrder c =>
        obtain ⟨order, horder⟩ := Option.isSome_iff_exists.mp haccepts.1
        have heq := processCancelOrder_eq hinv horder haccepts.2 clock
        obtain rfl := Option.some.inj (heq.symm.trans h)
        exact (ignoresAdmission_rejections.cancelled c.orderId "CANCELED").trans
          (List.append_nil _)
    | modifyOrder c =>
        obtain ⟨old, hold⟩ := Option.isSome_iff_exists.mp haccepts
        have hincoming : s.incomingOrder (.modifyOrder c) = some (c.applyTo old) :=
          Option.map_eq_some_iff.mpr ⟨old, hold, rfl⟩
        have heq : processModifyOrder clock c s = _ := processModifyOrder_eq hinv hincoming
        obtain rfl := Option.some.inj (heq.symm.trans h)
        exact rejections_executed s clock (c.applyTo old) _ id
  · refine Or.inr ⟨haccepts, ?_⟩
    rcases processCommand_cases hinv hcmd clock with
      ⟨_, clientId, symbol, side, reason, heq⟩ | ⟨c, order, rfl, horder, hmem, _⟩ |
        ⟨order, hincoming, _⟩
    · exact ⟨clientId, symbol, side, reason, Option.some.inj (h.symm.trans heq)⟩
    · exact absurd ⟨Option.isSome_iff_exists.mpr ⟨order, horder⟩, hmem⟩ haccepts
    · exact absurd (accepts_of_incomingOrder hincoming) haccepts

/-- No command about the order `id` has been refused as long as no rejection names it. -/
theorem rejections_step (hinv : s.Sound (newIds history))
    (hcmd : Admissible (newIds history) cmd) (h : processCommand clock s cmd = some s')
    (id : OrderID) : s'.rejections id = [] ↔
      s.rejections id = [] ∧ (cmd.orderId = id → s.Accepts cmd) := by
  rcases processCommand_rejections hinv hcmd h with
    ⟨haccepts, hsame⟩ | ⟨hrefuses, clientId, symbol, side, reason, rfl⟩
  · rw [hsame]
    exact (and_iff_left fun _ => haccepts).symm
  · rw [rejections_publishRejection, List.append_eq_nil_iff]
    refine and_congr_right fun _ => ?_
    by_cases hid : cmd.orderId = id
    · rw [if_pos hid]
      exact iff_of_false (List.cons_ne_nil _ _) fun h => hrefuses (h hid)
    · rw [if_neg hid]
      exact iff_of_true rfl fun heq => absurd heq hid

/-- An order that has been turned away: nothing but rejections is reported of it. -/
structure Away (history : List (Command P)) (s : Partition P) (id : OrderID) : Prop where
  entered : id ∈ newIds history
  unregistered : s.orderManager.orderMap id = none
  unreported : s.orderReports id = []

omit [PriceArith P] in
theorem Away.publishRejection (haway : s.Away history id) (clock : Clock) (orderId : OrderID)
    (clientId : ClientID) (symbol : Instrument) (side : OrderSide) (reason : String) :
    (s.publishRejection clock orderId clientId symbol side reason).Away (history ++ [cmd]) id where
  entered := by
    rw [newIds_concat]
    exact List.mem_append_left _ haway.entered
  unregistered := haway.unregistered
  unreported := by
    rw [orderReports_publishRejection]
    exact haway.unreported

theorem Away.executed (haway : s.Away history id) (hinv : s.Sound (newIds history))
    (hcmd : Admissible (newIds history) cmd) (h : s.incomingOrder cmd = some order)
    (clock : Clock) : (s.executed clock order cmd).Away (history ++ [cmd]) id := by
  have hid : order.coreOrderId ≠ id := by
    rintro rfl
    rcases incomingOrder_cases hinv hcmd h with
      ⟨_, _, _, _, _, hnew, _⟩ | ⟨_, old, _, _, _, hold, _⟩
    · exact hnew haway.entered
    · cases haway.unregistered.symm.trans hold
  refine ⟨?_, ?_, ?_⟩
  · rw [newIds_concat]
    exact List.mem_append_left _ haway.entered
  · rw [Option.eq_none_iff_forall_ne_some]
    intro order' horder'
    rcases executed_registered hinv hcmd h clock horder' with
      ⟨heq, _⟩ | ⟨_, hold⟩ | ⟨_, f, _, hold, _⟩
    · exact hid heq.symm
    · cases haway.unregistered.symm.trans hold
    · cases haway.unregistered.symm.trans hold
  · rw [orderReports_executed hinv hcmd h, haway.unreported, List.nil_append,
      List.eq_nil_iff_forall_not_mem]
    intro report hreport
    rcases mem_newReports hinv hcmd h clock hreport with
      ⟨heq, _⟩ | ⟨heq, _⟩ | ⟨_, _, _, _, _, hold, _⟩
    · exact hid heq
    · exact hid heq
    · cases haway.unregistered.symm.trans hold

theorem away_step (haway : s.Away history id) (hinv : s.Sound (newIds history))
    (hcmd : Admissible (newIds history) cmd) (h : processCommand clock s cmd = some s') :
    s'.Away (history ++ [cmd]) id := by
  rcases processCommand_cases hinv hcmd clock with
    ⟨_, clientId, symbol, side, reason, heq⟩ | ⟨c, order, rfl, horder, _, heq⟩ |
      ⟨order, hincoming, heq⟩
  · obtain rfl := Option.some.inj (heq.symm.trans h)
    exact haway.publishRejection ..
  · obtain rfl := Option.some.inj (heq.symm.trans h)
    have hid : order.coreOrderId ≠ id := by
      rintro rfl
      rw [← (hinv.managed _ order horder).1, haway.unregistered] at horder
      cases horder
    refine ⟨?_, ?_, ?_⟩
    · rw [newIds_concat]
      exact List.mem_append_left _ haway.entered
    · rw [retire, OrderManager.removeOrderById_orderMap]
      split_ifs
      · rfl
      · exact haway.unregistered
    · have hreports : (((s.cancelled clock c.orderId).publish
          (.execution order "CANCELED")).retire c.orderId).orderReports id = _ :=
        (readsReports_orderReports id).cancelled
      rw [hreports, if_neg hid, List.append_nil]
      exact haway.unreported
  · obtain rfl := Option.some.inj (heq.symm.trans h)
    exact haway.executed hinv hcmd hincoming clock

end Steps

/-! ## Runs -/

section Runs

variable [PriceArith P] {history commands : List (Command P)} {s s' : Partition P}
  {clock : Clock} {id : OrderID} {c : NewOrder P}

/-- Of the commands of a run, none of the ones that are meant is refused. -/
def AllAccepted (clock : Clock) (meant : Command P → Prop) (s : Partition P)
    (commands : List (Command P)) : Prop :=
  PartialRun.Follows (processCommand clock) (fun _ s cmd => meant cmd → s.Accepts cmd) [] s
    commands

theorem away_run (haway : s.Away history id) (hinv : s.Sound (newIds history))
    (hcommands : PartialRun.Follows (processCommand clock)
      (fun history _ cmd => Admissible (newIds history) cmd) history s commands)
    (h : processAll clock s commands = some s') : s'.orderReports id = [] := by
  obtain ⟨t, ht, _, hgone⟩ := PartialRun.run_induction
    (fun history s => s.Sound (newIds history) ∧ s.Away history id)
    (fun history s cmd hs hcmd => by
      obtain ⟨t, ht, hsound⟩ := processCommand_sound hs.1 hcmd clock
      rw [← newIds_concat] at hsound
      exact ⟨t, ht, hsound, away_step hs.2 hs.1 hcmd ht⟩) ⟨hinv, haway⟩ hcommands
  obtain rfl := Option.some.inj (ht.symm.trans h)
  exact hgone.unreported

/-- Of an order that is refused, nothing but rejections is reported. -/
theorem orderReports_of_refused (htrail : s.Trail history c.order.coreOrderId)
    (hinv : s.Sound (newIds history))
    (hcommands : PartialRun.Follows (processCommand clock)
      (fun history _ cmd => Admissible (newIds history) cmd) history s commands)
    (h : processAll clock s commands = some s')
    (hrefused : ¬PartialRun.Follows (processCommand clock)
      (fun _ s cmd => cmd = .newOrder c → s.Accepts cmd) history s commands) :
    s'.orderReports c.order.coreOrderId = [] := by
  induction commands generalizing s history with
  | nil => exact absurd trivial hrefused
  | cons cmd commands ih =>
      obtain ⟨t, ht, hrest⟩ := Option.bind_eq_some_iff.mp h
      obtain ⟨t', ht', hsound⟩ := processCommand_sound hinv hcommands.1 clock
      obtain rfl := Option.some.inj (ht'.symm.trans ht)
      rw [← newIds_concat] at hsound
      by_cases haccepts : cmd = .newOrder c → s.Accepts cmd
      · apply ih (trail_step htrail hinv hcommands.1 ht) hsound (hcommands.2 t' ht) hrest
        intro hall
        refine hrefused ⟨haccepts, fun u hu => ?_⟩
        obtain rfl := Option.some.inj (ht.symm.trans hu)
        exact hall
      · obtain ⟨rfl, hrefuses⟩ := Classical.not_imp.mp haccepts
        rcases processCommand_rejections hinv hcommands.1 ht with
          ⟨haccepted, _⟩ | ⟨_, _, _, _, _, rfl⟩
        · exact absurd haccepted hrefuses
        have hfresh : c.order.coreOrderId ∉ newIds history :=
          hcommands.1.1 _ (List.mem_singleton_self _)
        refine away_run ⟨?_, ?_, ?_⟩ hsound (hcommands.2 _ ht) hrest
        · rw [newIds_concat]
          exact List.mem_append_right _ (List.mem_singleton_self _)
        · rw [Option.eq_none_iff_forall_ne_some]
          exact fun order horder => hfresh (hinv.managed _ order horder).2.2
        · rw [orderReports_publishRejection, List.eq_nil_iff_forall_not_mem]
          exact fun report hreport => hfresh (htrail.entered report hreport)

/-- Every report about the order carries the client's id that it was entered with. -/
def NamesOrder (s : Partition P) (c : NewOrder P) : Prop :=
  ∀ report ∈ s.reports c.order.coreOrderId, report.clientOrderId = c.order.clientOrderId

theorem namesOrder_iff (htrail : s.Trail history c.order.coreOrderId)
    (hc : .newOrder c ∈ history) : s.NamesOrder c ↔
      c.order.clientOrderId = idText c.order.coreOrderId ∨
        s.rejections c.order.coreOrderId = [] := by
  obtain ⟨hclient, _⟩ := htrail.client c hc rfl
  constructor
  · intro hnames
    by_cases hnone : s.rejections c.order.coreOrderId = []
    · exact Or.inr hnone
    · obtain ⟨report, hreport⟩ := List.exists_mem_of_ne_nil _ hnone
      refine Or.inl ?_
      rw [← hnames report (mem_reports_iff.mpr (Or.inr hreport))]
      exact (of_mem_rejections hreport).1
  · rintro hnamed report hreport
    rcases mem_reports_iff.mp hreport with hreport | hreport
    · exact hclient report hreport
    · rcases hnamed with hid | hnone
      · rw [hid]
        exact (of_mem_rejections hreport).1
      · rw [hnone] at hreport
        exact (List.not_mem_nil hreport).elim

/-- In a run no rejection names an order exactly if no command about it is refused. -/
theorem rejections_run (h : Valid commands) (clock : Clock) (symbol : Instrument)
    (currentId : TradeID) (id : OrderID) :
    ∃ s, processAll clock (init symbol currentId) commands = some s ∧ s.Trail commands id ∧
      (s.rejections id = [] ↔
        AllAccepted clock (fun cmd => cmd.orderId = id) (init symbol currentId) commands) := by
  have hrun : ∃ s, processAll clock (init symbol currentId) commands = some s ∧
      (s.Sound (newIds commands) ∧ s.Trail commands id) ∧
      (s.rejections id = [] ↔ (init symbol currentId : Partition P).rejections id = [] ∧
        AllAccepted clock (fun cmd => cmd.orderId = id) (init symbol currentId) commands) := by
    refine PartialRun.run_exact (fun history s => s.Sound (newIds history) ∧ s.Trail history id)
      (fun history s cmd hs hcmd => ?_)
      ⟨sound_init symbol currentId, trail_init symbol currentId id⟩ (h.follows clock _)
    obtain ⟨t, ht, hsound⟩ := processCommand_sound hs.1 hcmd clock
    rw [← newIds_concat] at hsound
    exact ⟨t, ht, ⟨hsound, trail_step hs.2 hs.1 hcmd ht⟩, rejections_step hs.1 hcmd ht id⟩
  obtain ⟨s, hs, ⟨_, htrail⟩, hexact⟩ := hrun
  exact ⟨s, hs, htrail, hexact.trans (and_iff_right rfl)⟩

variable [DecidableEq P] [StreamPrice P]

/-- A blotter that has the intent of the order, and then the reports about it, does not
list the order. -/
def DropsOrder (s : Partition P) (c : NewOrder P) : Prop :=
  ∀ (model : BlotterModel P) (intent : OrderIntent P), model.WellKeyed →
    (∀ report ∈ s.reports c.order.coreOrderId, ¬model.Repeats report) →
    intent.clientOrderId = c.order.clientOrderId →
    ∀ row ∈ ((model.recordOrderIntent intent).receive
      (s.reports c.order.coreOrderId)).activeOrders, row.clientOrderId ≠ c.order.clientOrderId

theorem dropsOrder_of_rejected (hid : c.order.clientOrderId = idText c.order.coreOrderId)
    (hnone : s.orderReports c.order.coreOrderId = [])
    (hrejected : s.rejections c.order.coreOrderId ≠ []) : s.DropsOrder c := by
  intro model intent hkeyed hfresh hintent row hrow heq
  have hall : ∀ report ∈ s.reports c.order.coreOrderId,
      report.clientOrderId = c.order.clientOrderId ∧
        BlotterModel.closes report.status = true := by
    intro report hreport
    rcases mem_reports_iff.mp hreport with hreport | hreport
    · rw [hnone] at hreport
      exact (List.not_mem_nil hreport).elim
    · obtain ⟨hclient, hstatus⟩ := of_mem_rejections hreport
      exact ⟨hclient.trans hid.symm, by rw [hstatus]; rfl⟩
  have hkeyed' := (hkeyed.recordOrderIntent intent).receive (s.reports c.order.coreOrderId)
  have hfind := hkeyed'.mem_activeOrders.mp hrow
  obtain ⟨rejection, hrejection⟩ := List.exists_mem_of_ne_nil _ hrejected
  obtain ⟨report, reports, hreports⟩ :=
    List.exists_cons_of_ne_nil (List.ne_nil_of_mem (mem_reports_iff.mpr (Or.inr hrejection)))
  rw [hreports] at hall hfresh hfind
  obtain ⟨hclient, hcloses⟩ := hall report List.mem_cons_self
  have hrepeats : ¬(model.recordOrderIntent intent).Repeats report :=
    hfresh report List.mem_cons_self
  have hgone : ((model.recordOrderIntent intent).processExecution report).find
      row.clientOrderId = none := by
    rw [BlotterModel.find_processExecution hrepeats, if_pos (heq.trans hclient.symm),
      BlotterModel.rowAfter, if_pos hcloses]
  have hnever := BlotterModel.find_receive_of_closes hgone fun other hother =>
    (hall other (List.mem_cons_of_mem _ hother)).2
  cases hnever.symm.trans hfind

/-- Every report names the order as its client does exactly if the client's id is the
text of the exchange's id, or no command about the order is refused; then a blotter
drops an order that the risk check refuses. -/
theorem reports_name_order_iff (h : Valid commands) (clock : Clock) (symbol : Instrument)
    (currentId : TradeID) :
    ∃ s, processAll clock (init symbol currentId) commands = some s ∧
      ∀ c, .newOrder c ∈ commands →
        ((s.NamesOrder c ∧
            (¬AllAccepted clock (· = .newOrder c) (init symbol currentId) commands →
              s.DropsOrder c)) ↔
          c.order.clientOrderId = idText c.order.coreOrderId ∨
            AllAccepted clock (fun cmd => cmd.orderId = c.order.coreOrderId)
              (init symbol currentId) commands) := by
  obtain ⟨s, hs, _⟩ := rejections_run h clock symbol currentId 0
  refine ⟨s, hs, fun c hc => ?_⟩
  obtain ⟨t, ht, htrail, haccepted⟩ :=
    rejections_run h clock symbol currentId c.order.coreOrderId
  obtain rfl := Option.some.inj (hs.symm.trans ht)
  have hnames := namesOrder_iff htrail hc
  rw [haccepted] at hnames
  refine ⟨fun hboth => hnames.mp hboth.1, fun hcond => ?_⟩
  refine ⟨hnames.mpr hcond, fun hrefused => ?_⟩
  have hrejected : s.rejections c.order.coreOrderId ≠ [] := by
    rw [ne_eq, haccepted]
    intro hall
    apply hrefused
    refine PartialRun.Follows.mono hall fun s cmd haccepts hcmd => ?_
    exact haccepts (congrArg Command.orderId hcmd)
  refine dropsOrder_of_rejected (hcond.resolve_right fun hall => ?_)
    (orderReports_of_refused (trail_init ..) (sound_init symbol currentId) (h.follows clock _) hs
      hrefused) hrejected
  exact hrejected (haccepted.mpr hall)

end Runs

namespace Sample

/-- The buy of a trader against an own sell. -/
def selfBuy : NewOrder ℚ where
  clientId := "7"
  timestamp := 0
  order := .create "A" 2 .eurusd "7" "S1" .buy .limit .day 3 10 0
  isNew := Order.isNew_create ..

def selfMatch : List (Command ℚ) := [submit 1 "S1" .sell .limit 3 10, .newOrder selfBuy]

def selfIntent : OrderIntent ℚ where
  clientOrderId := "A"
  symbol := .eurusd
  side := .buy
  orderType := .limit
  price := 10
  originalQuantity := 3

end Sample

theorem reports_name_order_iff_sample :
    ∃ s, processAll (fun _ => 0) (init .eurusd 0) Sample.commands = some s ∧
      ∀ c, .newOrder c ∈ Sample.commands →
        ((s.NamesOrder c ∧
            (¬AllAccepted (fun _ => 0) (· = .newOrder c) (init .eurusd 0) Sample.commands →
              s.DropsOrder c)) ↔
          c.order.clientOrderId = idText c.order.coreOrderId ∨
            AllAccepted (fun _ => 0) (fun cmd => cmd.orderId = c.order.coreOrderId)
              (init .eurusd 0) Sample.commands) :=
  reports_name_order_iff Sample.valid_commands (fun _ => 0) .eurusd 0

/-- The client's order "A" is refused as "2", and its row stays. -/
theorem refused_order_unnamed :
    Valid Sample.selfMatch ∧
      ∃ s, processAll (fun _ => 0) (init .eurusd 0) Sample.selfMatch = some s ∧
        ¬s.NamesOrder Sample.selfBuy ∧ ¬s.DropsOrder Sample.selfBuy := by
  refine ⟨by decide, ?_⟩
  have hrun : (processAll (fun _ => 0) (init .eurusd 0) Sample.selfMatch).map
      (fun s => ((s.reports 2).map ExecutionReport.clientOrderId,
        ((BlotterModel.empty.recordOrderIntent Sample.selfIntent).receive
          (s.reports 2)).activeOrders.map Client.OrderRow.clientOrderId)) =
      some (["2"], ["A"]) := by
    decide +kernel
  obtain ⟨s, hs, heq⟩ := Option.map_eq_some_iff.mp hrun
  obtain ⟨hreports, hrows⟩ := Prod.mk.inj heq
  refine ⟨s, hs, fun hnames => ?_, fun hdrops => ?_⟩
  · obtain ⟨report, hreport, hclient⟩ :=
      List.mem_map.mp (hreports ▸ List.mem_singleton_self ("2" : ClientOrderID))
    exact absurd (hclient.symm.trans (hnames report hreport)) (by decide)
  · obtain ⟨row, hrow, hclient⟩ :=
      List.mem_map.mp (hrows ▸ List.mem_singleton_self ("A" : ClientOrderID))
    exact hdrops _ Sample.selfIntent BlotterModel.wellKeyed_empty (fun _ _ h => by cases h.2) rfl
      row hrow hclient

end Partition

end BetaTrader
