import BetaTrader.Common.FixUtils
import BetaTrader.Exchange.OrderIDGenerator
import BetaTrader.Exchange.RequestScope
import Mathlib.Data.List.TakeWhile

/-!
# Where execution reports go

A report goes to the number of the connection that its order was entered on.  The
number is kept as text with the order, in the table and over restarts.  It is the
number of another connection, or of none, once the client has come back or the
numbers have begun again.
-/

namespace BetaTrader

/-! ## Connection numbers as text -/

theorem stoulSafe_numberText (sessionId : ConnectionID) :
    ExecutionPublisher.stoulSafe (numberText sessionId.toNat) = sessionId := by
  have hlt : sessionId.toNat < 2 ^ 64 := sessionId.toNat_lt.trans (by decide)
  simp [ExecutionPublisher.stoulSafe, numberText, Decimal.stoul_natText hlt]

theorem cString_numberText (n : ℕ) : cString (numberText n) = numberText n := by
  have hnul : '\x00' ∉ Decimal.natText n := FixUtils.notMem_natText (by decide) n
  have htake : (Decimal.natText n).takeWhile (· ≠ '\x00') = Decimal.natText n := by
    rw [List.takeWhile_eq_self_iff]
    intro c hc
    exact decide_eq_true fun heq => hnul (heq ▸ hc)
  rw [cString, numberText, String.toList_ofList, htake]

/-! ## What is reported of a command -/

/-- A report rejects the command and answers its source, or it tells of an order
and goes to the source of that. -/
theorem Event.outgoing_cases {origins : OrderID → Option Origin} {source : Option Source}
    {φ : OrderID → ClientID → Prop} {cmd : Command Double} {event : Event Double}
    {outgoing : Outgoing}
    (hconcerns : event.Concerns (fun order => φ order.coreOrderId order.clientId) cmd)
    (h : outgoing ∈ event.outgoing origins source) :
    (outgoing.report.exchangeOrderId = cmd.orderId ∧ outgoing.source = source ∧
      outgoing.report.targetCompId = ExecutionPublisher.stoulSafe cmd.clientId) ∨
    ∃ client, φ outgoing.report.exchangeOrderId client ∧
      outgoing.source = (origins outgoing.report.exchangeOrderId).map Origin.source ∧
      outgoing.report.targetCompId = ExecutionPublisher.stoulSafe client := by
  cases event with
  | published publication =>
      cases publication with
      | execution order action =>
          obtain rfl := List.mem_singleton.mp h
          exact Or.inr ⟨order.clientId, hconcerns, rfl, rfl⟩
      | trade trade buyOrder sellOrder =>
          obtain ⟨hbuy, hsell⟩ := hconcerns
          rcases List.mem_cons.mp h with rfl | h
          · exact Or.inr ⟨buyOrder.clientId, hbuy, rfl, rfl⟩
          · obtain rfl := List.mem_singleton.mp h
            exact Or.inr ⟨sellOrder.clientId, hsell, rfl, rfl⟩
      | rejection orderId clientId symbol side reason now =>
          obtain ⟨rfl, rfl⟩ := hconcerns
          obtain rfl := List.mem_singleton.mp h
          exact Or.inl ⟨rfl, rfl, rfl⟩
  | enqueued task => exact absurd h List.not_mem_nil
  | refreshed refresh => exact absurd h List.not_mem_nil
  | matched trades => exact absurd h List.not_mem_nil

namespace Exchange

variable {σ : Exchange} {φ φ' : OrderID → ClientID → Prop} {χ χ' : QueuedCommand → Prop}
  {ω ω' : Outgoing → Prop} {queued : QueuedCommand}

/-! ## Orders, commands and reports on their way -/

/-- What holds of the orders, of the commands in the queues and of the reports. -/
structure Tracks (φ : OrderID → ClientID → Prop) (χ : QueuedCommand → Prop)
    (ω : Outgoing → Prop) (σ : Exchange) : Prop where
  addressed : σ.Addressed
  orders : σ.Carries φ
  queues : ∀ symbol, ∀ queued ∈ σ.queues symbol, χ queued
  outbox : ∀ symbol, ∀ outgoing ∈ σ.outbox symbol, ω outgoing

/-- What is reported of a command is as the reports are. -/
def Passes (φ : OrderID → ClientID → Prop) (χ : QueuedCommand → Prop) (ω : Outgoing → Prop)
    (origins : OrderID → Option Origin) : Prop :=
  ∀ queued (event : Event Double) outgoing, χ queued →
    event.Concerns (fun order => φ order.coreOrderId order.clientId) queued.command →
    outgoing ∈ event.outgoing origins queued.source → ω outgoing

theorem tracks_start (seqRepo : Option SequenceRepository) : (start seqRepo).Tracks φ χ ω where
  addressed := addressed_run seqRepo []
  orders := carries_start seqRepo
  queues := by simp [start]
  outbox := by simp [start]

theorem Tracks.congr {σ' : Exchange} (h : σ.Tracks φ χ ω)
    (hpartitions : σ'.partitions = σ.partitions) (hqueues : σ'.queues = σ.queues)
    (houtbox : σ'.outbox = σ.outbox) (htasks : σ'.tasks = σ.tasks)
    (horders : σ'.orders = σ.orders) : σ'.Tracks φ χ ω where
  addressed := by
    intro symbol
    rw [hpartitions]
    exact h.addressed symbol
  orders := h.orders.congr hpartitions hqueues htasks horders
  queues := by
    rw [hqueues]
    exact h.queues
  outbox := by
    rw [houtbox]
    exact h.outbox

theorem Tracks.mono (h : σ.Tracks φ χ ω) (horders : ∀ id client, φ id client → φ' id client)
    (hqueues : ∀ symbol, ∀ queued ∈ σ.queues symbol, χ queued → χ' queued)
    (houtbox : ∀ symbol, ∀ outgoing ∈ σ.outbox symbol, ω outgoing → ω' outgoing) :
    σ.Tracks φ' χ' ω' where
  addressed := h.addressed
  orders := h.orders.mono horders
  queues := fun symbol queued hqueued => hqueues symbol queued hqueued (h.queues symbol _ hqueued)
  outbox := fun symbol outgoing hout => houtbox symbol outgoing hout (h.outbox symbol _ hout)

theorem Tracks.submit (h : σ.Tracks φ χ ω)
    (hnew : ∀ cmd, queued.command = .newOrder cmd → φ cmd.order.coreOrderId cmd.order.clientId)
    (hqueued : ∀ symbol, queued ∈ (σ.submit queued).queues symbol → χ queued) :
    (σ.submit queued).Tracks φ χ ω where
  addressed := by
    intro symbol
    rw [submit_partitions]
    exact h.addressed symbol
  orders := h.orders.submit hnew
  queues := by
    intro symbol other hother
    rcases mem_queues_submit hother with hold | rfl
    · exact h.queues symbol other hold
    · exact hqueued symbol hother
  outbox := by
    rw [submit_outbox]
    exact h.outbox

theorem Tracks.work (h : σ.Tracks φ χ ω) (hpasses : Passes φ χ ω σ.origins) (symbol : Instrument)
    (clock : Clock) : (σ.work symbol clock).Tracks φ χ ω where
  addressed := h.addressed.work symbol clock
  orders := h.orders.work h.addressed symbol clock
  queues := by
    intro other queued hqueued
    rcases σ.work_cases symbol clock with heq | heq | ⟨first, rest, s, _, hqueue, _, heq⟩
    · exact h.queues other queued (heq ▸ hqueued)
    · rw [heq] at hqueued
      exact h.queues other queued hqueued
    · rw [heq] at hqueued
      by_cases hother : other = symbol
      · subst hother
        apply h.queues other queued
        rw [hqueue]
        exact List.mem_cons_of_mem first (by simpa [finish] using hqueued)
      · exact h.queues other queued (by simpa [finish, Function.update_of_ne hother] using hqueued)
  outbox := by
    intro other outgoing hout
    rcases σ.work_cases symbol clock with heq | heq | ⟨queued, rest, s, _, hqueue, hprocess, heq⟩
    · exact h.outbox other outgoing (heq ▸ hout)
    · rw [heq] at hout
      exact h.outbox other outgoing hout
    · rw [heq] at hout
      by_cases hother : other = symbol
      · subst hother
        obtain ⟨_, _, hevents⟩ := h.orders.processCommand h.addressed hqueue hprocess
        obtain ⟨event, hevent, hmem⟩ := List.mem_flatMap.mp
          (show outgoing ∈ _ by simpa [finish] using hout)
        exact hpasses queued event outgoing (h.queues other queued (by simp [hqueue]))
          (hevents event hevent) hmem
      · exact h.outbox other outgoing (by simpa [finish, Function.update_of_ne hother] using hout)

theorem Tracks.deliver (h : σ.Tracks φ χ ω) (symbol : Instrument) :
    (σ.deliver symbol).Tracks φ χ ω := by
  unfold Exchange.deliver
  split
  · exact h
  · next outgoing rest houtbox =>
      refine ⟨h.addressed, h.orders.congr rfl rfl rfl rfl, h.queues, fun other out hout => ?_⟩
      by_cases hother : other = symbol
      · subst hother
        apply h.outbox other out
        rw [houtbox]
        exact List.mem_cons_of_mem outgoing (by simpa using hout)
      · exact h.outbox other out (by simpa [Function.update_of_ne hother] using hout)

theorem Tracks.executeTask (h : σ.Tracks φ χ ω) : σ.executeTask.Tracks φ χ ω where
  addressed := by
    intro symbol
    rw [executeTask_partitions]
    exact h.addressed symbol
  orders := h.orders.executeTask
  queues := by
    rw [executeTask_queues]
    exact h.queues
  outbox := by
    rw [executeTask_outbox]
    exact h.outbox

theorem tracks_restart (horders : ∀ row ∈ σ.orders, φ row.coreOrderId.toUInt64 row.clientId)
    (hstored : ∀ id client, φ id client → φ id (cString client))
    (seqRepo : Option SequenceRepository) (tradeId : TradeID)
    (iteration : Instrument → List OrderID) :
    (σ.restart seqRepo tradeId iteration).Tracks φ χ ω where
  addressed := σ.addressed_restart seqRepo tradeId iteration
  orders := carries_restart horders hstored seqRepo tradeId iteration
  queues := by simp [Exchange.restart]
  outbox := by simp [Exchange.restart]

theorem Carries.and (h : σ.Carries φ) (h' : σ.Carries φ') :
    σ.Carries fun id client => φ id client ∧ φ' id client where
  partitions := fun symbol ptr order horder =>
    ⟨h.partitions symbol ptr order horder, h'.partitions symbol ptr order horder⟩
  queues := fun symbol queued hqueued cmd hcmd =>
    ⟨h.queues symbol queued hqueued cmd hcmd, h'.queues symbol queued hqueued cmd hcmd⟩
  tasks := fun order horder => ⟨h.tasks order horder, h'.tasks order horder⟩
  orders := fun row hrow => ⟨h.orders row hrow, h'.orders row hrow⟩

/-! ## Ids that no order has -/

/-- No order that is known, and none that a report is about, has the id. -/
structure Fresh (σ : Exchange) (id : OrderID) : Prop where
  orders : σ.Carries fun other _ => other ≠ id
  outbox : ∀ symbol, ∀ outgoing ∈ σ.outbox symbol, outgoing.report.exchangeOrderId ≠ id

/-- An order that enters is given such an id. -/
def EntersFresh (σ : Exchange) : ExchangeEvent → Prop
  | .server (.frame sessionId ctx fixMessage) => ∀ cmd,
      FixSession.Submits ctx sessionId fixMessage (.newOrder cmd) → σ.Fresh cmd.order.coreOrderId
  | .simulate cmd => σ.Fresh cmd.order.coreOrderId
  | _ => True

/-! ## Where orders have come from -/

/-- The client of an order is the number of the connection it was entered on. -/
def NamesSource (origins : OrderID → Option Origin) (id : OrderID) (client : ClientID) : Prop :=
  ∀ origin, origins id = some origin → client = numberText origin.source.sessionId.toNat

/-- The client of a command is the number of the connection it came from, and only
new orders come from elsewhere. -/
structure NamesSender (origins : OrderID → Option Origin) (queued : QueuedCommand) : Prop where
  client : ∀ source, queued.source = some source →
    queued.command.clientId = numberText source.sessionId.toNat
  simulated : queued.source = none → ∃ cmd, queued.command = .newOrder cmd ∧
    origins cmd.order.coreOrderId = none

/-- A report about an order that was entered over FIX has the number of its source. -/
def NamesTarget (origins : OrderID → Option Origin) (outgoing : Outgoing) : Prop :=
  ∀ origin, origins outgoing.report.exchangeOrderId = some origin →
    ∃ source, outgoing.source = some source ∧ outgoing.report.targetCompId = source.sessionId

/-- Orders, commands and reports have the numbers of the connections they came from. -/
def NamesSources (σ : Exchange) : Prop :=
  σ.Tracks (NamesSource σ.origins) (NamesSender σ.origins) (NamesTarget σ.origins)

theorem passes_names (origins : OrderID → Option Origin) :
    Passes (NamesSource origins) (NamesSender origins) (NamesTarget origins) origins := by
  intro queued event outgoing hqueued hconcerns hmem origin horigin
  rcases Event.outgoing_cases hconcerns hmem with ⟨hid, hsource, htarget⟩ |
    ⟨client, hclient, hsource, htarget⟩
  · cases hq : queued.source with
    | some source =>
        refine ⟨source, hsource.trans hq, ?_⟩
        rw [htarget, hqueued.client source hq, stoulSafe_numberText]
    | none =>
        obtain ⟨cmd, hcmd, hnone⟩ := hqueued.simulated hq
        rw [hid, hcmd, Command.orderId, hnone] at horigin
        cases horigin
  · refine ⟨origin.source, by rw [hsource, horigin, Option.map_some], ?_⟩
    rw [htarget, hclient origin horigin, stoulSafe_numberText]

/-- The names stay right while an order enters under an id that none has. -/
theorem NamesSources.tracks (h : σ.NamesSources) {id : OrderID} (hfresh : σ.Fresh id)
    {origins : OrderID → Option Origin}
    (hkeeps : ∀ other, other ≠ id → origins other = σ.origins other) :
    σ.Tracks (NamesSource origins) (NamesSender origins) (NamesTarget origins) where
  addressed := h.addressed
  orders := by
    refine (h.orders.and hfresh.orders).mono fun other client hboth => ?_
    obtain ⟨hnames, hne⟩ := hboth
    intro origin horigin
    exact hnames origin (hkeeps other hne ▸ horigin)
  queues := by
    intro symbol queued hqueued
    have hnames := h.queues symbol queued hqueued
    refine ⟨hnames.client, fun hnone => ?_⟩
    obtain ⟨cmd, hcmd, horigin⟩ := hnames.simulated hnone
    have hne := hfresh.orders.queues symbol queued hqueued cmd hcmd
    exact ⟨cmd, hcmd, (hkeeps _ hne).trans horigin⟩
  outbox := by
    intro symbol outgoing hout origin horigin
    have hne := hfresh.outbox symbol outgoing hout
    exact h.outbox symbol outgoing hout origin (hkeeps _ hne ▸ horigin)

/-- A command comes in, under a fresh id if it is a new order. -/
theorem NamesSources.submit (h : σ.NamesSources)
    (hclient : ∀ source, queued.source = some source →
      queued.command.clientId = numberText source.sessionId.toNat)
    (hsimulated : queued.source = none → ∃ cmd, queued.command = .newOrder cmd)
    (hfresh : ∀ cmd, queued.command = .newOrder cmd → σ.Fresh cmd.order.coreOrderId) :
    (σ.submit queued).NamesSources := by
  unfold NamesSources
  rw [submit_origins]
  cases hcommand : queued.command with
  | newOrder cmd =>
      have hself : (σ.enter queued).origins cmd.order.coreOrderId =
          queued.source.map fun source => ⟨source, cmd.order.senderCompID⟩ := by
        simp [enter, hcommand]
      have hkeeps : ∀ other, other ≠ cmd.order.coreOrderId →
          (σ.enter queued).origins other = σ.origins other := by
        intro other hne
        simp [enter, hcommand, Function.update_of_ne hne]
      rw [hcommand, Command.clientId] at hclient
      refine (h.tracks (hfresh cmd hcommand) hkeeps).submit (fun cmd' hcmd' => ?_) fun _ _ => ?_
      · obtain rfl := Command.newOrder.inj (hcommand.symm.trans hcmd')
        intro origin horigin
        rw [hself, Option.map_eq_some_iff] at horigin
        obtain ⟨source, hsource, rfl⟩ := horigin
        exact hclient source hsource
      · refine ⟨fun source hsource => ?_, fun hnone => ⟨cmd, hcommand, ?_⟩⟩
        · rw [hcommand]
          exact hclient source hsource
        · rw [hself, hnone, Option.map_none]
  | cancelOrder cmd =>
      have hsame : (σ.enter queued).origins = σ.origins := by rw [enter, hcommand]
      rw [hsame]
      refine Tracks.submit h (by simp [hcommand]) fun _ _ => ⟨hclient, fun hnone => ?_⟩
      obtain ⟨_, hcmd⟩ := hsimulated hnone
      cases hcommand.symm.trans hcmd
  | modifyOrder cmd =>
      have hsame : (σ.enter queued).origins = σ.origins := by rw [enter, hcommand]
      rw [hsame]
      refine Tracks.submit h (by simp [hcommand]) fun _ _ => ⟨hclient, fun hnone => ?_⟩
      obtain ⟨_, hcmd⟩ := hsimulated hnone
      cases hcommand.symm.trans hcmd

theorem clientId_of_submits {ctx : HandlerContext} {sessionId : ConnectionID}
    {fixMessage : Message} {command : Command Double}
    (h : FixSession.Submits ctx sessionId fixMessage command) :
    command.clientId = numberText sessionId.toNat := by
  cases h with
  | newOrder htype hconvert => rfl
  | cancelOrder htype hconvert hid => rfl
  | modifyOrder htype hconvert hid => rfl

theorem NamesSources.step (h : σ.NamesSources) (event : ExchangeEvent)
    (hfresh : σ.EntersFresh event) : (σ.step event).NamesSources := by
  cases event with
  | server event =>
      simp only [Exchange.step]
      split_ifs
      · rcases σ.serve_cases event with
          heq | ⟨sessionId, ctx, fixMessage, connection, command, rfl, _, _, hsubmits, _, _, heq⟩
        · rw [heq]
          exact Tracks.congr h rfl rfl rfl rfl rfl
        · rw [heq]
          have hserver : { σ with server := σ.server.step (.frame sessionId ctx fixMessage) :
              Exchange }.NamesSources := Tracks.congr h rfl rfl rfl rfl rfl
          refine hserver.submit (fun source hsource => ?_) (fun hnone => by cases hnone)
            fun cmd hcmd => ?_
          · obtain rfl := Option.some.inj hsource
            exact clientId_of_submits hsubmits
          · have hcmd : command = .newOrder cmd := hcmd
            subst hcmd
            obtain ⟨horders, houtbox⟩ := hfresh cmd hsubmits
            exact ⟨horders.congr rfl rfl rfl rfl, houtbox⟩
      · exact h
  | simulate cmd =>
      simp only [Exchange.step]
      split_ifs
      · refine h.submit (fun source hsource => by cases hsource) (fun _ => ⟨cmd, rfl⟩) ?_
        intro cmd' hcmd'
        obtain rfl := Command.newOrder.inj hcmd'
        exact hfresh
      · exact h
  | work symbol clock =>
      simp only [Exchange.step]
      split_ifs
      · have hwork := Tracks.work h (passes_names σ.origins) symbol clock
        rwa [← work_origins σ symbol clock] at hwork
      · exact h
  | deliver symbol =>
      simp only [Exchange.step]
      split_ifs
      · have hdeliver := Tracks.deliver h symbol
        rwa [← deliver_origins σ symbol] at hdeliver
      · exact h
  | database =>
      simp only [Exchange.step]
      split_ifs
      · have htask := Tracks.executeTask h
        rwa [← executeTask_origins σ] at htask
      · exact h
  | restart seqRepo tradeId iteration =>
      refine tracks_restart h.orders.orders (fun id client hclient origin horigin => ?_)
        seqRepo tradeId iteration
      rw [hclient origin horigin, cString_numberText]

end Exchange

/-! ## Where reports are sent -/

namespace FixServer

variable {server : FixServer} {compId : String} {sessionId : ConnectionID}

/-- A connection with this number is open, and it has been accepted under the CompID. -/
def OpenFor (server : FixServer) (compId : String) (sessionId : ConnectionID) : Prop :=
  ∃ connection, server.sessions sessionId = some connection ∧ connection.isOpen = true ∧
    connection.acceptedAs = some compId

/-- A number under which the reports for a CompID arrive: that of one of its
connections, or one under which nothing is sent while it has no connection. -/
def RoutesTo (server : FixServer) (compId : String) (sessionId : ConnectionID) : Prop :=
  (sessionId ≠ 0 ∧ server.OpenFor compId sessionId) ∨
  ((sessionId = 0 ∨ ∀ connection, server.sessions sessionId = some connection →
      connection.isOpen = false) ∧ ∀ other, ¬server.OpenFor compId other)

theorem sentOn_eq_some_iff {report : ExecutionReport Double} {connection : Connection} :
    server.sentOn report = some connection ↔ report.targetCompId ≠ 0 ∧
      server.sessions report.targetCompId = some connection ∧ connection.isOpen = true := by
  unfold sentOn
  split_ifs with hzero
  · simp [hzero]
  · rw [Option.filter_eq_some_iff, and_iff_right hzero]

theorem sentOn_eq_none_iff {report : ExecutionReport Double} :
    server.sentOn report = none ↔ report.targetCompId = 0 ∨ ∀ connection,
      server.sessions report.targetCompId = some connection → connection.isOpen = false := by
  rw [← Option.not_isSome_iff_eq_none, Option.isSome_iff_exists]
  simp only [sentOn_eq_some_iff, not_exists, not_and, Bool.not_eq_true]
  exact ⟨fun h => or_iff_not_imp_left.mpr fun hzero connection => h connection hzero,
    fun h connection hzero => h.resolve_left hzero connection⟩

end FixServer

/-- The report was sent to the client of its order only, and it was sent if there
was a connection of that client. -/
def Delivery.ReachesOwner (delivery : Delivery) : Prop :=
  ∀ owner, delivery.owner = some owner →
    (∀ connection, delivery.sentOn = some connection → connection.acceptedAs = some owner) ∧
    ((∃ sessionId connection, delivery.sessions sessionId = some connection ∧
      connection.isOpen = true ∧ connection.acceptedAs = some owner) → delivery.sentOn.isSome)

namespace Exchange

variable {σ : Exchange}

/-- The reports that have gone out have reached the clients of their orders. -/
def ReportsReachOwners (σ : Exchange) : Prop := ∀ delivery ∈ σ.deliveries, delivery.ReachesOwner

/-- When a report goes out about an order that was entered over FIX, the number of
the connection it was entered on (for a rejection, of the one that the command came
in on) leads to the client of the order. -/
def RoutesHome (σ : Exchange) : ExchangeEvent → Prop
  | .deliver symbol => σ.server.running = true →
      ∀ outgoing rest, σ.outbox symbol = outgoing :: rest →
      ∀ origin source, σ.origins outgoing.report.exchangeOrderId = some origin →
        outgoing.source = some source → σ.server.RoutesTo origin.senderCompID source.sessionId
  | _ => True

theorem reachesOwner_iff {outgoing : Outgoing} (h : NamesTarget σ.origins outgoing) :
    (σ.delivery outgoing).ReachesOwner ↔
      ∀ origin source, σ.origins outgoing.report.exchangeOrderId = some origin →
        outgoing.source = some source → σ.server.RoutesTo origin.senderCompID source.sessionId := by
  constructor
  · intro hreaches origin source horigin hsource
    obtain ⟨source', hsource', htarget⟩ := h origin horigin
    obtain rfl := Option.some.inj (hsource.symm.trans hsource')
    obtain ⟨honly, hsent⟩ := hreaches origin.senderCompID (by simp [delivery, horigin])
    cases hconnection : σ.server.sentOn outgoing.report with
    | some connection =>
        obtain ⟨hzero, hsession, hopen⟩ := FixServer.sentOn_eq_some_iff.mp hconnection
        rw [htarget] at hzero hsession
        exact Or.inl ⟨hzero, connection, hsession, hopen, honly connection hconnection⟩
    | none =>
        refine Or.inr ⟨htarget ▸ FixServer.sentOn_eq_none_iff.mp hconnection,
          fun other hother => ?_⟩
        have hsome : (σ.server.sentOn outgoing.report).isSome := hsent ⟨other, hother⟩
        rw [hconnection] at hsome
        cases hsome
  · intro hroutes owner howner
    obtain ⟨origin, horigin, rfl⟩ := Option.map_eq_some_iff.mp howner
    obtain ⟨source, hsource, htarget⟩ := h origin horigin
    rcases hroutes origin source horigin hsource with
      ⟨hzero, connection, hsession, hopen, haccepted⟩ | ⟨hnone, hclosed⟩
    · have hsent : σ.server.sentOn outgoing.report = some connection := by
        rw [FixServer.sentOn_eq_some_iff, htarget]
        exact ⟨hzero, hsession, hopen⟩
      refine ⟨fun other hother => ?_, fun _ => Option.isSome_iff_exists.mpr ⟨connection, hsent⟩⟩
      obtain rfl := Option.some.inj (hsent.symm.trans hother)
      exact haccepted
    · have hsent : σ.server.sentOn outgoing.report = none := by
        rw [FixServer.sentOn_eq_none_iff, htarget]
        exact hnone
      refine ⟨fun other hother => ?_, fun hopen => ?_⟩
      · cases hsent.symm.trans hother
      · obtain ⟨other, hother⟩ := hopen
        exact absurd hother (hclosed other)

/-- Only a delivery adds to the deliveries. -/
theorem deliveries_step {event : ExchangeEvent} (h : ∀ symbol, event ≠ .deliver symbol) :
    (σ.step event).deliveries = σ.deliveries := by
  cases event with
  | server event =>
      simp only [step]
      split_ifs
      · rcases σ.serve_cases event with heq | ⟨_, _, _, _, _, _, _, _, _, _, _, heq⟩
        · rw [heq]
        · rw [heq, submit_deliveries]
      · rfl
  | simulate cmd =>
      simp only [step]
      split_ifs
      · exact submit_deliveries
      · rfl
  | work symbol clock =>
      simp only [step]
      split_ifs
      · exact work_deliveries σ symbol clock
      · rfl
  | deliver symbol => exact absurd rfl (h symbol)
  | database =>
      simp only [step]
      split_ifs
      · exact executeTask_deliveries σ
      · rfl
  | restart seqRepo tradeId iteration => rfl

theorem reportsReachOwners_step (h : σ.NamesSources) (event : ExchangeEvent) :
    (σ.step event).ReportsReachOwners ↔ σ.ReportsReachOwners ∧ σ.RoutesHome event := by
  by_cases hdeliver : ∃ symbol, event = .deliver symbol
  · obtain ⟨symbol, rfl⟩ := hdeliver
    unfold ReportsReachOwners
    simp only [step, RoutesHome]
    split_ifs with hrunning
    · unfold Exchange.deliver
      split
      · next hnone => simp [hnone]
      · next outgoing rest houtbox =>
          have hnames := h.outbox symbol outgoing (by simp [houtbox])
          rw [List.forall_mem_append, List.forall_mem_singleton, reachesOwner_iff hnames]
          simp [hrunning, houtbox]
    · simp [hrunning]
  · rw [not_exists] at hdeliver
    have htrue : σ.RoutesHome event := by
      cases event with
      | deliver symbol => exact absurd rfl (hdeliver symbol)
      | server event => trivial
      | simulate cmd => trivial
      | work symbol clock => trivial
      | database => trivial
      | restart seqRepo tradeId iteration => trivial
    rw [ReportsReachOwners, deliveries_step hdeliver, and_iff_left htrue, ReportsReachOwners]

/-! ## The first ids are fresh -/

/-- No id is larger than the last one that was given out. -/
structure Numbered (σ : Exchange) : Prop where
  small : σ.orderId.toNat < 2 ^ 63
  tracks : σ.Tracks (fun id _ => id ≤ σ.orderId) (fun queued => queued.command.orderId ≤ σ.orderId)
    fun outgoing => outgoing.report.exchangeOrderId ≤ σ.orderId

theorem passes_numbered (last : OrderID) (origins : OrderID → Option Origin) :
    Passes (fun id _ => id ≤ last) (fun queued => queued.command.orderId ≤ last)
      (fun outgoing => outgoing.report.exchangeOrderId ≤ last) origins := by
  intro queued event outgoing hqueued hconcerns hmem
  rcases Event.outgoing_cases (φ := fun id _ => id ≤ last) hconcerns hmem with
    ⟨hid, _, _⟩ | ⟨client, hclient, _, _⟩
  · rw [hid]
    exact hqueued
  · exact hclient

/-- The next id, while there is one. -/
theorem lt_next (hnext : σ.orderId.toNat + 1 < 2 ^ 63) : σ.orderId < σ.orderId + 1 := by
  rw [UInt64.lt_iff_toNat_lt, UInt64.toNat_add]
  simp only [UInt64.toNat_one]
  omega

theorem Numbered.fresh (h : σ.Numbered) (hnext : σ.orderId.toNat + 1 < 2 ^ 63) :
    σ.Fresh (σ.orderId + 1) := by
  have hlarger {id : OrderID} (hid : id ≤ σ.orderId) : id ≠ σ.orderId + 1 := by
    rintro rfl
    exact UInt64.not_le.mpr (lt_next hnext) hid
  exact ⟨h.tracks.orders.mono fun _ _ hid => hlarger hid,
    fun symbol outgoing hout => hlarger (h.tracks.outbox symbol outgoing hout)⟩

theorem contains_of_find {id : OrderID} {symbol : Instrument}
    (h : σ.findPartitionForOrder id = some symbol) :
    (σ.partitions symbol).orderManager.containsOrderById id = true := by
  unfold findPartitionForOrder at h
  simpa using List.find?_some h

/-- A cancel or replace command that is not dropped is about an order that is there. -/
theorem submit_request_cases (hrequest : queued.command.IsRequest) :
    σ.submit queued = σ ∨ ∃ symbol,
      (σ.partitions symbol).orderManager.containsOrderById queued.command.orderId = true := by
  unfold submit submitCommand enter
  cases hcommand : queued.command with
  | newOrder cmd =>
      rw [hcommand] at hrequest
      exact hrequest.elim
  | cancelOrder cmd =>
      dsimp only
      split
      · exact Or.inl rfl
      · next symbol hfound => exact Or.inr ⟨symbol, contains_of_find hfound⟩
  | modifyOrder cmd =>
      dsimp only
      split
      · exact Or.inl rfl
      · next symbol hfound => exact Or.inr ⟨symbol, contains_of_find hfound⟩

theorem Numbered.orderId_le (h : σ.Numbered) {symbol : Instrument} {id : OrderID}
    (hid : (σ.partitions symbol).orderManager.containsOrderById id = true) : id ≤ σ.orderId := by
  obtain ⟨order, horder⟩ := Option.isSome_iff_exists.mp hid
  have hle := h.tracks.orders.partitions symbol id order horder
  rwa [h.tracks.addressed symbol id order horder] at hle

theorem Numbered.submit_request (h : σ.Numbered) (hrequest : queued.command.IsRequest) :
    (σ.submit queued).Numbered := by
  have hsame : σ.enter queued = σ := by
    unfold enter
    split
    · next cmd hcmd =>
        rw [hcmd] at hrequest
        exact hrequest.elim
    · rfl
  have hid : (σ.submit queued).orderId = σ.orderId := by rw [submit_orderId, hsame]
  rcases σ.submit_request_cases hrequest with heq | ⟨symbol, hfound⟩
  · rwa [heq]
  · refine ⟨hid ▸ h.small, ?_⟩
    rw [hid]
    refine h.tracks.submit (fun cmd hcmd => ?_) fun _ _ => h.orderId_le hfound
    rw [hcmd] at hrequest
    exact hrequest.elim

theorem Numbered.submit (h : σ.Numbered) (hnext : σ.orderId.toNat + 1 < 2 ^ 63)
    (hnew : ∀ cmd, queued.command = .newOrder cmd → cmd.order.coreOrderId = σ.orderId + 1) :
    (σ.submit queued).Numbered := by
  cases hcommand : queued.command with
  | newOrder cmd =>
      have hid : (σ.submit queued).orderId = σ.orderId + 1 := by
        rw [submit_orderId, enter, hcommand]
        exact hnew cmd hcommand
      have hle := UInt64.le_of_lt (lt_next hnext)
      refine ⟨?_, ?_⟩
      · rw [hid, UInt64.toNat_add, UInt64.toNat_one]
        omega
      · rw [hid]
        refine Tracks.submit ?_ (fun cmd' hcmd' => ?_) fun _ _ => ?_
        · exact h.tracks.mono (fun _ _ hid => UInt64.le_trans hid hle)
            (fun _ _ _ hid => UInt64.le_trans hid hle) fun _ _ _ hid => UInt64.le_trans hid hle
        · exact hnew cmd' hcmd' ▸ UInt64.le_refl _
        · rw [hcommand]
          exact hnew cmd hcommand ▸ UInt64.le_refl _
  | cancelOrder cmd => exact h.submit_request (by rw [hcommand]; trivial)
  | modifyOrder cmd => exact h.submit_request (by rw [hcommand]; trivial)

/-- The largest key of the table, as long as no key has wrapped round. -/
theorem loadInitialState_spec {orders : OrderTable Double} {n : ℕ} (hn : n < 2 ^ 63)
    (h : ∀ row ∈ orders, row.coreOrderId.toUInt64.toNat ≤ n) :
    orders.loadInitialState.toNat ≤ n ∧
      ∀ row ∈ orders, row.coreOrderId.toUInt64 ≤ orders.loadInitialState := by
  unfold OrderTable.loadInitialState
  cases hmax : orders.maxCoreOrderId with
  | none =>
      obtain rfl := OrderTable.maxCoreOrderId_eq_none_iff.mp hmax
      exact ⟨Nat.zero_le n, by simp⟩
  | some key =>
      obtain ⟨⟨row, hrow, rfl⟩, hlarger⟩ := OrderTable.maxCoreOrderId_spec hmax
      refine ⟨h row hrow, fun other hother => ?_⟩
      by_contra hnot
      have hlt := UInt64.lt_iff_toNat_lt.mp (UInt64.not_le.mp hnot)
      have hsmall := h other hother
      -- below `2^63` the keys are ordered as the ids are
      have horder := TradeIDGenerator.toInt64_lt_iff hlt (by omega)
      simp only [UInt64.ofNat_toNat, Int64.toInt64_toUInt64] at horder
      have hnotlt : ¬other.coreOrderId < row.coreOrderId := fun hkey => by
        have hboth := horder.mp hkey
        omega
      have hsame := Int64.le_antisymm (Int64.not_lt.mp hnotlt)
        (Int64.not_lt.mp (hlarger other hother))
      rw [hsame] at hlt
      exact lt_irrefl _ hlt

theorem Numbered.restart (h : σ.Numbered) (seqRepo : Option SequenceRepository) (tradeId : TradeID)
    (iteration : Instrument → List OrderID) : (σ.restart seqRepo tradeId iteration).Numbered := by
  obtain ⟨hsmall, hrows⟩ := loadInitialState_spec h.small fun row hrow =>
    UInt64.le_iff_toNat_le.mp (h.tracks.orders.orders row hrow)
  exact ⟨hsmall.trans_lt h.small,
    tracks_restart hrows (fun _ _ hid => hid) seqRepo tradeId iteration⟩

theorem Numbered.step (h : σ.Numbered) {event : ExchangeEvent} (hreads : σ.Reads event)
    (hnext : σ.orderId.toNat + 1 < 2 ^ 63) : (σ.step event).Numbered := by
  cases event with
  | server event =>
      simp only [Exchange.step]
      split_ifs
      · have hserver : { σ with server := σ.server.step event : Exchange }.Numbered :=
          ⟨h.small, h.tracks.congr rfl rfl rfl rfl rfl⟩
        rcases σ.serve_cases event with
          heq | ⟨sessionId, ctx, fixMessage, connection, command, rfl, _, _, hsubmits, _, _, heq⟩
        · rwa [heq]
        · rw [heq]
          refine hserver.submit hnext fun cmd hcmd => ?_
          cases hsubmits with
          | newOrder htype hconvert =>
              obtain rfl := Command.newOrder.inj hcmd
              exact hreads.1
          | cancelOrder htype hconvert hid => cases hcmd
          | modifyOrder htype hconvert hid => cases hcmd
      · exact h
  | simulate cmd =>
      simp only [Exchange.step]
      split_ifs
      · refine h.submit hnext fun cmd' hcmd' => ?_
        obtain rfl := Command.newOrder.inj hcmd'
        exact hreads.1
      · exact h
  | work symbol clock =>
      simp only [Exchange.step]
      split_ifs
      · refine ⟨(work_orderId σ symbol clock).symm ▸ h.small, ?_⟩
        rw [work_orderId]
        exact h.tracks.work (passes_numbered σ.orderId σ.origins) symbol clock
      · exact h
  | deliver symbol =>
      simp only [Exchange.step]
      split_ifs
      · refine ⟨(deliver_orderId σ symbol).symm ▸ h.small, ?_⟩
        rw [deliver_orderId]
        exact h.tracks.deliver symbol
      · exact h
  | database =>
      simp only [Exchange.step]
      split_ifs
      · refine ⟨(executeTask_orderId σ).symm ▸ h.small, ?_⟩
        rw [executeTask_orderId]
        exact h.tracks.executeTask
      · exact h
  | restart seqRepo tradeId iteration => exact h.restart seqRepo tradeId iteration

/-- Ids are fresh up to the `2^63`rd. -/
theorem entersFresh_of_reads (h : σ.Numbered) {events : List ExchangeEvent}
    (hreads : TotalRun.Meets step Reads σ events)
    (hids : TotalRun.Meets step (fun σ _ => σ.orderId.toNat + 1 < 2 ^ 63) σ events) :
    TotalRun.Meets step EntersFresh σ events := by
  induction events generalizing σ with
  | nil => trivial
  | cons event events ih =>
      refine ⟨?_, ih (h.step hreads.1 hids.1) hreads.2 hids.2⟩
      cases event with
      | server event =>
          cases event with
          | frame sessionId ctx fixMessage =>
              intro cmd hsubmits
              cases hsubmits with
              | newOrder htype hconvert =>
                  have hid : ctx.nextId = σ.orderId + 1 := hreads.1.1
                  have hfresh := h.fresh hids.1
                  rwa [← hid] at hfresh
          | accept => trivial
          | malformed sessionId ctx error => trivial
          | disconnect sessionId => trivial
          | outbound sessionId => trivial
          | loadConfig validClients => trivial
      | simulate cmd =>
          have hfresh := h.fresh hids.1
          rwa [← hreads.1.1] at hfresh
      | work symbol clock => trivial
      | deliver symbol => trivial
      | database => trivial
      | restart seqRepo tradeId iteration => trivial

/-! ## The theorem -/

/-- Reports reach the clients of their orders exactly in the runs in which, whenever
one goes out, the number it has leads to the client. -/
theorem reports_reach_owners_iff (seqRepo : Option SequenceRepository) (events : List ExchangeEvent)
    (hfresh : TotalRun.Meets step EntersFresh (start seqRepo) events) :
    ((start seqRepo).run events).ReportsReachOwners ↔
      TotalRun.Meets step RoutesHome (start seqRepo) events :=
  TotalRun.foldl_exact_of NamesSources
    (fun _ event h hevent => ⟨h.step event hevent, reportsReachOwners_step h event⟩)
    (tracks_start seqRepo) (by simp [ReportsReachOwners, start]) hfresh

theorem numbered_start (seqRepo : Option SequenceRepository) : (start seqRepo).Numbered :=
  ⟨Nat.two_pow_pos 63, tracks_start seqRepo⟩

theorem reports_reach_owners_iff_sample :
    ((start none).run Sample.entered).ReportsReachOwners ↔
      TotalRun.Meets step RoutesHome (start none) Sample.entered := by
  exact reports_reach_owners_iff none Sample.entered
    (entersFresh_of_reads (numbered_start none) Sample.entered_reads (by decide +kernel))

namespace Sample

/-- The client of an order comes back before the order is worked on. -/
def cameBack : List ExchangeEvent :=
  [.server (.loadConfig ["C1"]), .server .accept,
    .server (.frame 1 (FixServer.Sample.ctx 1) (FixServer.Sample.logon "C1")),
    .server (.frame 1 (FixServer.Sample.ctx 1) (FixServer.Sample.newOrderSingle "C1" 2)),
    .server (.disconnect 1), .server .accept,
    .server (.frame 2 (FixServer.Sample.ctx 2) (FixServer.Sample.logon "C1")),
    .work .eurusd fun _ => 0, .deliver .eurusd]

theorem cameBack_reads : TotalRun.Meets step Reads (start none) cameBack := by
  have hempty : ∀ symbol, ((start none).partitions symbol).orderManager = .empty := fun _ => rfl
  refine ⟨trivial, trivial, ⟨by decide +kernel, fun clientOrderId => finds_none ?_⟩,
    ⟨by decide +kernel, fun clientOrderId => finds_none ?_⟩, trivial, trivial,
    ⟨by decide +kernel, fun clientOrderId => finds_none ?_⟩, trivial, trivial, trivial⟩
  · simpa using hempty
  · simpa using hempty
  · simpa using hempty

end Sample

/-- The report is not sent, although the client has a connection. -/
theorem report_lost :
    ¬∀ (seqRepo : Option SequenceRepository) (events : List ExchangeEvent),
      TotalRun.Meets step Reads (start seqRepo) events →
        ((start seqRepo).run events).ReportsReachOwners := by
  intro h
  have hreaches := h none Sample.cameBack Sample.cameBack_reads
  have hshape : ((start none).run Sample.cameBack).deliveries.map (fun delivery =>
      (delivery.owner, delivery.sentOn.isSome,
        (delivery.sessions 2).map fun connection => (connection.isOpen, connection.acceptedAs))) =
      [(some "C1", false, some (true, some "C1"))] := by
    decide +kernel
  obtain ⟨delivery, hdelivery, heq⟩ := List.map_eq_singleton_iff.mp hshape
  simp only [Prod.mk.injEq, Option.map_eq_some_iff] at heq
  obtain ⟨howner, hnot, connection, hsession, hopen, haccepted⟩ := heq
  obtain ⟨_, hsent⟩ := hreaches delivery (by simp [hdelivery]) "C1" howner
  have hsome := hsent ⟨2, connection, hsession, hopen, haccepted⟩
  rw [hnot] at hsome
  cases hsome

end Exchange

end BetaTrader
