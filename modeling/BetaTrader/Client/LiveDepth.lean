import BetaTrader.Client.DepthReplica
import BetaTrader.Client.MarketDataPanel
import BetaTrader.Exchange.Restart

/-!
# The depth on the screen

The user selects symbols, subscribes and unsubscribes while the exchange works on its
partitions, and requests and messages are on their way.  Once the client has caught up
with these, what it shows under `SUBSCRIBED` is the depth of the exchange, as long as
each command leaves it so.
-/

namespace BetaTrader

variable {P : Type}

/-! ## The symbol of the refreshes -/

namespace Partition

section Symbols

variable [FinitePrice P] {ids : List OrderID} {s s' : Partition P} {order : Order P}
  {cmd : Command P} {clock : Clock}

omit [FinitePrice P] in
theorem cancelEvents_symbol {id : OrderID} {refresh : MarketDataIncrementalRefresh P}
    (h : refresh ∈ (s.cancelEvents clock id).flatMap Event.refreshes) :
    refresh.symbol = s.orderBook.symbol := by
  rw [cancelEvents] at h
  split_ifs at h
  · cases horder : s.orderManager.orderMap id with
    | none => simp [horder] at h
    | some order =>
        rw [horder] at h
        rw [List.mem_singleton.mp h]
        rfl
  · cases h

theorem symbol_step (hinv : s.Invariant ids) (hcmd : Admissible ids cmd)
    (h : processCommand clock s cmd = some s') : s'.orderBook.symbol = s.orderBook.symbol ∧
      ∃ new, s'.refreshes = s.refreshes ++ new ∧ ∀ r ∈ new, r.symbol = s.orderBook.symbol := by
  rcases processCommand_cases hinv.sound hcmd clock with
    ⟨hincoming, _, _, _, _, heq⟩ | ⟨c, order, rfl, horder, hcontains, heq⟩ | ⟨order, hincoming, heq⟩
  · obtain rfl := Option.some.inj (heq.symm.trans h)
    refine ⟨rfl, [], ?_, nofun⟩
    exact List.flatMap_append
  · obtain rfl := Option.some.inj (heq.symm.trans h)
    refine ⟨rfl, (s.cancelEvents clock c.orderId).flatMap Event.refreshes, ?_,
      fun _ => cancelEvents_symbol⟩
    rw [refreshes, cancelled_journal, List.flatMap_append, List.flatMap_append]
    exact congrArg _ (List.append_nil _)
  · obtain rfl := Option.some.inj (heq.symm.trans h)
    have hsymbol := prepared_afterMatch_symbol hinv.sound hcmd hincoming clock
    refine ⟨executed_symbol hinv.sound hcmd hincoming clock,
      (s.cancelEvents clock cmd.orderId).flatMap Event.refreshes ++
        ((s.prepared clock order cmd).closingEvents order).flatMap Event.refreshes, ?_, ?_⟩
    · have hadmission := (admissionEvents_refreshes hinv hcmd hincoming clock).2
      simp only [refreshes, executed_journal, List.flatMap_append, List.flatMap_cons, hadmission,
        bookingEvents_refreshes, List.nil_append]
      rfl
    · intro r hr
      rcases List.mem_append.mp hr with hr | hr
      · exact cancelEvents_symbol hr
      · rw [closingEvents] at hr
        split_ifs at hr
        · rw [List.mem_singleton.mp hr]
          exact hsymbol
        · cases hr
        · cases hr

end Symbols

end Partition

namespace Client

/-! ## The system -/

/-- What the exchange sends to a session that has subscribed. -/
inductive MarketDataMessage (P : Type) where
  | snapshot (snapshot : MarketDataSnapshotFullRefresh P)
  | refresh (refresh : MarketDataIncrementalRefresh P)

def OrderBook.empty : OrderBook P := ⟨fun _ => none, fun _ => none⟩

/-- The callback drops what is about another symbol than the selected one. -/
def OrderBook.told [DecidableEq P] (selected : Message) (book : OrderBook P) :
    MarketDataMessage P → OrderBook P
  | .snapshot snapshot =>
      if snapshot.symbol.name ≠ selected then book else book.handleSnapshot snapshot
  | .refresh refresh =>
      if refresh.symbol.name ≠ selected then book else book.handleIncremental refresh

/-- One active session: the exchange, what is on its way, and the client. -/
structure LiveDepth (P : Type) where
  partitions : Instrument → Partition P
  /-- The symbols whose refreshes the exchange sends to the session. -/
  subscribed : Instrument → Bool
  requests : List MarketDataCall
  messages : List (MarketDataMessage P)
  panel : MarketDataState
  orderBook : OrderBook P

inductive LiveEvent (P : Type) where
  /-- A frame in which the user may choose a symbol and press the button. -/
  | frame (chosen : Option Instrument) (pressed : Bool)
  /-- The worker of a partition processes a command. -/
  | command (symbol : Instrument) (cmd : Command P)
  | requestRead
  | messageRead

namespace LiveDepth

section System

variable [DecidableEq P] [PriceArith P] (clock : Clock) (sessionId : SessionID)

/-- A session that has become active. -/
def start (currentId : TradeID) : LiveDepth P where
  partitions := fun symbol => .init symbol currentId
  subscribed := fun _ => false
  requests := []
  messages := []
  panel := ⟨"EURUSD".toList, .ready⟩
  orderBook := .empty

/-- What a request is answered with; `none` if the book has a dangling pointer. -/
def answer (s : LiveDepth P) (call : MarketDataCall) : Option (List (MarketDataMessage P)) :=
  match Instrument.fromString call.symbol with
  | none => some []
  | some symbol =>
      if call.subscriptionRequestType = '0' ∨ call.subscriptionRequestType = '1' then
        ((s.partitions symbol).orderBook.publishSnapshot (s.partitions symbol).orderManager
          sessionId).map fun snapshot => [.snapshot snapshot]
      else some []

/-- The subscriptions after a request. -/
def subscribe (s : LiveDepth P) (call : MarketDataCall) : Instrument → Bool :=
  match Instrument.fromString call.symbol with
  | none => s.subscribed
  | some symbol =>
      if call.subscriptionRequestType = '0' ∨ call.subscriptionRequestType = '1' then
        Function.update s.subscribed symbol true
      else if call.subscriptionRequestType = '2' then Function.update s.subscribed symbol false
      else s.subscribed

/-- The refreshes that the publisher sends to the session. -/
def forwarded (s : LiveDepth P) (refreshes : List (MarketDataIncrementalRefresh P)) :
    List (MarketDataMessage P) :=
  (refreshes.filter fun refresh => s.subscribed refresh.symbol).map .refresh

def step (s : LiveDepth P) : LiveEvent P → Option (LiveDepth P)
  | .frame chosen pressed =>
      let (panel, calls) := ConnectionPanel.marketData s.panel .active chosen pressed
      some { s with
        panel := panel
        requests := s.requests ++ calls
        -- a new book for a new symbol
        orderBook := if panel.symbol ≠ s.panel.symbol then .empty else s.orderBook }
  | .command symbol cmd =>
      (Partition.processCommand clock (s.partitions symbol) cmd).map fun partition => { s with
        partitions := Function.update s.partitions symbol partition
        messages := s.messages ++
          s.forwarded (partition.refreshes.drop (s.partitions symbol).refreshes.length) }
  | .requestRead =>
      match s.requests with
      | [] => some s
      | call :: rest => (s.answer sessionId call).map fun messages => { s with
          subscribed := s.subscribe call
          requests := rest
          messages := s.messages ++ messages }
  | .messageRead =>
      match s.messages with
      | [] => some s
      | message :: rest => some { s with
          messages := rest
          orderBook := s.orderBook.told s.panel.symbol message }

/-- The commands of a partition in a run. -/
def commandsOf (symbol : Instrument) (events : List (LiveEvent P)) : List (Command P) :=
  events.filterMap fun
    | .command symbol' cmd => if symbol' = symbol then some cmd else none
    | _ => none

/-- The client's book once it has read what is on its way, and the answers to the
requests that are. -/
def caughtUp (s : LiveDepth P) : OrderBook P :=
  (s.messages ++ s.requests.flatMap fun call => (s.answer sessionId call).getD []).foldl
    (OrderBook.told s.panel.symbol) s.orderBook

/-- Under `SUBSCRIBED` stands the depth of the exchange. -/
def Live (s : LiveDepth P) : Prop :=
  s.panel.status = .subscribed → ∀ symbol : Instrument, s.panel.symbol = symbol.name →
    (s.partitions symbol).Replicated (s.caughtUp sessionId)

end System

section Proofs

variable [FinitePrice P] {clock : Clock} {sessionId : SessionID} {s t : LiveDepth P}
  {history : List (LiveEvent P)} {symbol : Instrument} {call : MarketDataCall}

/-- What a step must leave as it is: a new subscription finds totals that fit in an
entry, and so does a command while a snapshot is still asked for; a command that the
client hears about keeps the depth of a client, and one that it does not hear about has
no part in the depth. -/
def KeepsLive (clock : Clock) (s : LiveDepth P) : LiveEvent P → Prop
  | .frame chosen pressed => ∀ symbol : Instrument, ⟨symbol.name, '1'⟩ ∈
      (ConnectionPanel.marketData s.panel .active chosen pressed).2 →
        (s.partitions symbol).TotalsFit
  | .command symbol cmd => s.panel.status = .subscribed → s.panel.symbol = symbol.name →
      if ⟨symbol.name, '1'⟩ ∈ s.requests then
        ∀ partition, Partition.processCommand clock (s.partitions symbol) cmd = some partition →
          partition.TotalsFit
      else if s.subscribed symbol then (s.partitions symbol).KeepsDepth cmd
      else ∀ partition, Partition.processCommand clock (s.partitions symbol) cmd =
        some partition → partition.depth = (s.partitions symbol).depth
  | _ => True

/-- What every run keeps. -/
structure Sound (history : List (LiveEvent P)) (s : LiveDepth P) : Prop where
  invariant : ∀ symbol, (s.partitions symbol).Invariant (newIds (commandsOf symbol history))
  symbol : ∀ symbol, (s.partitions symbol).orderBook.symbol = symbol
  named : s.panel.Named
  plain : ∀ call ∈ s.requests, call.Plain

/-! ## Catching up -/

theorem Sound.exists_snapshot (h : s.Sound history) (symbol : Instrument)
    (sessionId : SessionID) : ∃ snapshot : MarketDataSnapshotFullRefresh P,
      (s.partitions symbol).orderBook.publishSnapshot (s.partitions symbol).orderManager
        sessionId = some snapshot ∧ snapshot.symbol = symbol ∧
      ∀ client : OrderBook P, (s.partitions symbol).Replicated (client.handleSnapshot snapshot) ↔
        (s.partitions symbol).TotalsFit := by
  obtain ⟨snapshot, hsnapshot, _⟩ :=
    Partition.snapshot_replicated_iff (h.invariant symbol) sessionId .empty
  refine ⟨snapshot, hsnapshot, ?_, fun client => ?_⟩
  · obtain ⟨bids, _, hrest⟩ := Option.bind_eq_some_iff.mp hsnapshot
    obtain ⟨asks, _, heq⟩ := Option.bind_eq_some_iff.mp hrest
    rw [← Option.some.inj heq]
    exact h.symbol symbol
  · obtain ⟨other, hother, hiff⟩ :=
      Partition.snapshot_replicated_iff (h.invariant symbol) sessionId client
    obtain rfl := Option.some.inj (hsnapshot.symm.trans hother)
    exact hiff

theorem Sound.answer_eq (h : s.Sound history) (hplain : call.Plain) (sessionId : SessionID) :
    ∃ (first : Instrument) (snapshot : MarketDataSnapshotFullRefresh P),
      call.symbol = first.name ∧ snapshot.symbol = first ∧
      (s.partitions first).orderBook.publishSnapshot (s.partitions first).orderManager
        sessionId = some snapshot ∧
      s.answer sessionId call =
        some (if call.subscriptionRequestType = '1' then [.snapshot snapshot] else []) := by
  obtain ⟨⟨first, hname⟩, htype⟩ := hplain
  obtain ⟨snapshot, hsnapshot, hsymbol, _⟩ := h.exists_snapshot first sessionId
  refine ⟨first, snapshot, hname, hsymbol, hsnapshot, ?_⟩
  rw [answer, hname, Instrument.fromString_name]
  rcases htype with htype | htype
  · simp [htype, hsnapshot]
  · simp [htype]

/-- After the answers the client has the snapshot of its symbol if it has asked for one;
any other is dropped. -/
theorem Sound.foldl_answers (h : s.Sound history) (symbol : Instrument)
    {snapshot : MarketDataSnapshotFullRefresh P}
    (hsnapshot : (s.partitions symbol).orderBook.publishSnapshot
      (s.partitions symbol).orderManager sessionId = some snapshot)
    {requests : List MarketDataCall} (hplain : ∀ call ∈ requests, call.Plain)
    (book : OrderBook P) :
    (requests.flatMap fun call => (s.answer sessionId call).getD []).foldl
      (OrderBook.told symbol.name) book =
        if ⟨symbol.name, '1'⟩ ∈ requests then book.handleSnapshot snapshot else book := by
  induction requests generalizing book with
  | nil => rfl
  | cons call requests ih =>
      obtain ⟨hcall, hrest⟩ := List.forall_mem_cons.mp hplain
      obtain ⟨first, other, hname, hsymbol, hother, hanswer⟩ := h.answer_eq hcall sessionId
      rw [List.flatMap_cons, List.foldl_append, ih hrest, hanswer, Option.getD_some]
      have hmem : (⟨symbol.name, '1'⟩ : MarketDataCall) ∈ call :: requests ↔
          (first = symbol ∧ call.subscriptionRequestType = '1') ∨
            ⟨symbol.name, '1'⟩ ∈ requests := by
        rw [List.mem_cons]
        refine or_congr_left ⟨fun heq => ?_, fun heq => ?_⟩
        · rw [← heq] at hname ⊢
          exact ⟨(MarketDataState.name_inj hname).symm, rfl⟩
        · obtain ⟨name, type⟩ := call
          rw [show name = first.name from hname, heq.1, show type = '1' from heq.2]
      simp only [hmem]
      by_cases htype : call.subscriptionRequestType = '1'
      · rw [if_pos htype, List.foldl_cons, List.foldl_nil, OrderBook.told, hsymbol]
        by_cases hsame : first = symbol
        · subst hsame
          obtain rfl := Option.some.inj (hsnapshot.symm.trans hother)
          rw [if_neg (not_not.mpr rfl), if_pos (Or.inl ⟨rfl, htype⟩)]
          -- a snapshot leaves nothing of the book before
          exact ite_self _
        · rw [if_pos fun hnames => hsame (MarketDataState.name_inj hnames)]
          simp only [hsame, false_and, false_or]
      · rw [if_neg htype, List.foldl_nil]
        simp only [htype, and_false, false_or]

theorem Sound.caughtUp_eq (h : s.Sound history) (hsymbol : s.panel.symbol = symbol.name)
    {snapshot : MarketDataSnapshotFullRefresh P}
    (hsnapshot : (s.partitions symbol).orderBook.publishSnapshot
      (s.partitions symbol).orderManager sessionId = some snapshot) :
    s.caughtUp sessionId = if ⟨symbol.name, '1'⟩ ∈ s.requests then
        s.orderBook.handleSnapshot snapshot
      else s.messages.foldl (OrderBook.told symbol.name) s.orderBook := by
  rw [caughtUp, hsymbol, List.foldl_append, h.foldl_answers symbol hsnapshot h.plain]
  rfl

/-- Where a snapshot is still asked for, the totals are what matters. -/
theorem Sound.replicated_of_asked (h : s.Sound history) (hsymbol : s.panel.symbol = symbol.name)
    (hasked : ⟨symbol.name, '1'⟩ ∈ s.requests) (sessionId : SessionID) :
    (s.partitions symbol).Replicated (s.caughtUp sessionId) ↔ (s.partitions symbol).TotalsFit := by
  obtain ⟨snapshot, hsnapshot, _, hiff⟩ := h.exists_snapshot symbol sessionId
  rw [h.caughtUp_eq hsymbol hsnapshot, if_pos hasked]
  exact hiff s.orderBook

/-- Elsewhere the client has what is on its way. -/
theorem Sound.caughtUp_of_not_asked (h : s.Sound history)
    (hsymbol : s.panel.symbol = symbol.name) (hasked : ⟨symbol.name, '1'⟩ ∉ s.requests)
    (sessionId : SessionID) :
    s.caughtUp sessionId = s.messages.foldl (OrderBook.told symbol.name) s.orderBook := by
  obtain ⟨snapshot, hsnapshot, _⟩ := h.exists_snapshot symbol sessionId
  rw [h.caughtUp_eq hsymbol hsnapshot, if_neg hasked]

theorem live_iff (hsymbol : s.panel.symbol = symbol.name) : s.Live sessionId ↔
    (s.panel.status = .subscribed → (s.partitions symbol).Replicated (s.caughtUp sessionId)) := by
  refine ⟨fun h hstatus => h hstatus symbol hsymbol, fun h hstatus symbol' hsymbol' => ?_⟩
  rw [← MarketDataState.name_inj (hsymbol.symm.trans hsymbol')]
  exact h hstatus

/-! ## The steps -/

/-- What a step does, and that it keeps the depth exactly if it meets the condition. -/
def StepsWell (clock : Clock) (sessionId : SessionID) (history : List (LiveEvent P))
    (s : LiveDepth P) (event : LiveEvent P) : Prop :=
  ∃ t, s.step clock sessionId event = some t ∧ t.Sound (history ++ [event]) ∧
    (s.Live sessionId → (t.Live sessionId ↔ s.KeepsLive clock event))

omit [FinitePrice P] in
theorem commandsOf_concat (symbol : Instrument) (history : List (LiveEvent P))
    (event : LiveEvent P) : commandsOf symbol (history ++ [event]) =
      commandsOf symbol history ++ commandsOf symbol [event] := List.filterMap_append

theorem Sound.of_quiet (h : s.Sound history) {event : LiveEvent P}
    (hpartitions : t.partitions = s.partitions) (hquiet : ∀ symbol, commandsOf symbol [event] = [])
    (hnamed : t.panel.Named) (hplain : ∀ call ∈ t.requests, call.Plain) :
    t.Sound (history ++ [event]) := by
  refine ⟨fun symbol => ?_, fun symbol => ?_, hnamed, hplain⟩
  · rw [hpartitions, commandsOf_concat, hquiet, List.append_nil]
    exact h.invariant symbol
  · rw [hpartitions]
    exact h.symbol symbol

theorem Sound.messageRead (h : s.Sound history) :
    StepsWell clock sessionId history s .messageRead := by
  unfold StepsWell LiveDepth.step
  cases hmessages : s.messages with
  | nil =>
      exact ⟨s, rfl, h.of_quiet rfl (fun _ => rfl) h.named h.plain, fun hlive =>
        iff_of_true hlive trivial⟩
  | cons message rest =>
      refine ⟨_, rfl, h.of_quiet rfl (fun _ => rfl) h.named h.plain, fun hlive =>
        iff_of_true ?_ trivial⟩
      intro hstatus symbol hsymbol
      have hbefore := hlive hstatus symbol hsymbol
      rw [caughtUp, hmessages] at hbefore
      exact hbefore

theorem Sound.requestRead (h : s.Sound history) :
    StepsWell clock sessionId history s .requestRead := by
  unfold StepsWell LiveDepth.step
  cases hrequests : s.requests with
  | nil =>
      exact ⟨s, rfl, h.of_quiet rfl (fun _ => rfl) h.named h.plain, fun hlive =>
        iff_of_true hlive trivial⟩
  | cons call rest =>
      have hplain := h.plain
      rw [hrequests] at hplain
      obtain ⟨hcall, hrest⟩ := List.forall_mem_cons.mp hplain
      obtain ⟨_, _, _, _, _, hanswer⟩ := h.answer_eq hcall sessionId
      dsimp only
      rw [hanswer]
      refine ⟨_, rfl, h.of_quiet rfl (fun _ => rfl) h.named hrest, fun hlive =>
        iff_of_true ?_ trivial⟩
      intro hstatus symbol hsymbol
      have hbefore := hlive hstatus symbol hsymbol
      rw [caughtUp, hrequests, List.flatMap_cons, hanswer, Option.getD_some,
        ← List.append_assoc] at hbefore
      exact hbefore

theorem Sound.frame (h : s.Sound history) (chosen : Option Instrument) (pressed : Bool) :
    StepsWell clock sessionId history s (.frame chosen pressed) := by
  obtain ⟨r, hr⟩ : ∃ r, ConnectionPanel.marketData s.panel .active chosen pressed = r := ⟨_, rfl⟩
  obtain ⟨hnamed, hplain⟩ : r.1.Named ∧ ∀ call ∈ r.2, call.Plain :=
    hr ▸ ConnectionPanel.plain_marketData h.named
  obtain ⟨hasks, hshows⟩ := ConnectionPanel.marketData_subscribes s.panel chosen pressed
  rw [hr] at hasks hshows
  have hstep : s.step clock sessionId (.frame chosen pressed) = some { s with
      panel := r.1
      requests := s.requests ++ r.2
      orderBook := if r.1.symbol ≠ s.panel.symbol then .empty else s.orderBook } := by
    rw [LiveDepth.step, hr]
  have hsound : LiveDepth.Sound (history ++ [.frame chosen pressed]) { s with
      panel := r.1
      requests := s.requests ++ r.2
      orderBook := if r.1.symbol ≠ s.panel.symbol then .empty else s.orderBook } := by
    refine h.of_quiet rfl (fun _ => rfl) hnamed fun call hcall => ?_
    exact (List.mem_append.mp hcall).elim (h.plain call) (hplain call)
  obtain ⟨symbol, hsymbol⟩ := hnamed
  refine ⟨_, hstep, hsound, fun hlive => ?_⟩
  rw [live_iff hsymbol, KeepsLive, hr]
  by_cases hasked : ⟨symbol.name, '1'⟩ ∈ r.2
  · have hstatus : r.1.status = .subscribed := (hasks _ hasked rfl).2
    have hiff := hsound.replicated_of_asked hsymbol (List.mem_append_right _ hasked) sessionId
    rw [imp_iff_right hstatus, hiff]
    refine ⟨fun hfit symbol' hmem => ?_, fun hall => hall symbol hasked⟩
    have hname : symbol'.name = r.1.symbol := (hasks _ hmem rfl).1
    rw [MarketDataState.name_inj (hname.trans hsymbol)]
    exact hfit
  · refine iff_of_true (fun hstatus => ?_) fun symbol' hmem => ?_
    · have hsame : s.panel.status = .subscribed ∧ r.1.symbol = s.panel.symbol :=
        (hshows hstatus).resolve_left fun hmem => hasked (hsymbol ▸ hmem)
      have hbefore : s.panel.symbol = symbol.name := hsame.2.symm.trans hsymbol
      obtain ⟨snapshot, hsnapshot, _⟩ := h.exists_snapshot symbol sessionId
      have hmem : ⟨symbol.name, '1'⟩ ∈ s.requests ++ r.2 ↔ ⟨symbol.name, '1'⟩ ∈ s.requests := by
        rw [List.mem_append, or_iff_left hasked]
      have hrep := hlive hsame.1 symbol hbefore
      rw [h.caughtUp_eq hbefore hsnapshot] at hrep
      rw [hsound.caughtUp_eq hsymbol hsnapshot]
      simp only [hmem, hsame.2, ne_eq, not_true_eq_false, if_false]
      exact hrep
    · have hname : symbol'.name = r.1.symbol := (hasks _ hmem rfl).1
      rw [hname, hsymbol] at hmem
      exact (hasked hmem).elim

omit [FinitePrice P] in
theorem forwarded_eq {refreshes : List (MarketDataIncrementalRefresh P)}
    (h : ∀ refresh ∈ refreshes, refresh.symbol = symbol) :
    s.forwarded refreshes = if s.subscribed symbol then refreshes.map .refresh else [] := by
  have hfilter : refreshes.filter (fun refresh => s.subscribed refresh.symbol) =
      refreshes.filter fun _ => s.subscribed symbol :=
    List.filter_congr fun refresh hmem => by rw [h refresh hmem]
  rw [forwarded, hfilter]
  cases s.subscribed symbol <;> simp

theorem foldl_told_same {refreshes : List (MarketDataIncrementalRefresh P)}
    (h : ∀ refresh ∈ refreshes, refresh.symbol = symbol) (book : OrderBook P) :
    (refreshes.map MarketDataMessage.refresh).foldl (OrderBook.told symbol.name) book =
      book.handleAll refreshes := by
  rw [List.foldl_map]
  refine List.foldl_ext _ _ _ fun book refresh hmem => ?_
  rw [OrderBook.told, h refresh hmem, if_neg (not_not.mpr rfl)]

theorem foldl_told_other {other : Instrument} (hne : other ≠ symbol)
    {refreshes : List (MarketDataIncrementalRefresh P)}
    (h : ∀ refresh ∈ refreshes, refresh.symbol = other) (book : OrderBook P) :
    (refreshes.map MarketDataMessage.refresh).foldl (OrderBook.told symbol.name) book = book := by
  induction refreshes with
  | nil => rfl
  | cons refresh refreshes ih =>
      obtain ⟨hfirst, hrest⟩ := List.forall_mem_cons.mp h
      rw [List.map_cons, List.foldl_cons, OrderBook.told, hfirst,
        if_pos fun hnames => hne (MarketDataState.name_inj hnames)]
      exact ih hrest

theorem Sound.command (h : s.Sound history) {cmd : Command P}
    (hcmd : Admissible (newIds (commandsOf symbol history)) cmd) :
    StepsWell clock sessionId history s (.command symbol cmd) := by
  obtain ⟨partition, hpartition, hinv⟩ :=
    Partition.processCommand_invariant (h.invariant symbol) hcmd clock
  obtain ⟨hsame, new, hnew, hsymbols⟩ := Partition.symbol_step (h.invariant symbol) hcmd hpartition
  rw [h.symbol] at hsame hsymbols
  obtain ⟨new', hnew', hkeeps⟩ := Partition.replicated_step (h.invariant symbol) hcmd hpartition
  obtain rfl := List.append_cancel_left (hnew.symm.trans hnew')
  obtain ⟨t, hstep, hself, hothers, hmessages, hpanel, hrequests, hbook⟩ : ∃ t,
      s.step clock sessionId (.command symbol cmd) = some t ∧ t.partitions symbol = partition ∧
        (∀ other ≠ symbol, t.partitions other = s.partitions other) ∧
        t.messages = s.messages ++ s.forwarded new ∧ t.panel = s.panel ∧
        t.requests = s.requests ∧ t.orderBook = s.orderBook := by
    refine ⟨{ s with
      partitions := Function.update s.partitions symbol partition
      messages := s.messages ++ s.forwarded new }, ?_, Function.update_self .., fun other hne =>
        Function.update_of_ne hne .., rfl, rfl, rfl, rfl⟩
    rw [LiveDepth.step, hpartition, Option.map_some, hnew, List.drop_left]
  have hsound : t.Sound (history ++ [.command symbol cmd]) := by
    refine ⟨fun other => ?_, fun other => ?_, hpanel ▸ h.named, hrequests ▸ h.plain⟩
    · by_cases hother : other = symbol
      · subst hother
        have hcommands : commandsOf other [LiveEvent.command other cmd] = [cmd] := by
          simp [commandsOf]
        rw [hself, commandsOf_concat, hcommands, Partition.newIds_concat]
        exact hinv
      · have hcommands : commandsOf other [LiveEvent.command symbol cmd] = [] := by
          simp [commandsOf, Ne.symm hother]
        rw [hothers other hother, commandsOf_concat, hcommands, List.append_nil]
        exact h.invariant other
    · by_cases hother : other = symbol
      · subst hother
        rw [hself]
        exact hsame
      · rw [hothers other hother]
        exact h.symbol other
  refine ⟨t, hstep, hsound, fun hlive => ?_⟩
  obtain ⟨selected, hselected⟩ := h.named
  rw [live_iff (hpanel ▸ hselected : t.panel.symbol = selected.name), KeepsLive, hpanel]
  by_cases hstatus : s.panel.status = .subscribed
  · rw [imp_iff_right hstatus, imp_iff_right hstatus]
    have hrep := hlive hstatus selected hselected
    by_cases hother : selected = symbol
    · subst hother
      rw [imp_iff_right hselected]
      by_cases hasked : ⟨selected.name, '1'⟩ ∈ s.requests
      · have hiff := hsound.replicated_of_asked (hpanel ▸ hselected) (hrequests ▸ hasked) sessionId
        rw [hself] at hiff ⊢
        rw [if_pos hasked, hiff]
        refine ⟨fun hfit partition' hpartition' => ?_, fun hall => hall partition hpartition⟩
        rwa [← Option.some.inj (hpartition.symm.trans hpartition')]
      · have hcaught : t.caughtUp sessionId = (s.forwarded new).foldl
            (OrderBook.told selected.name) (s.caughtUp sessionId) := by
          rw [hsound.caughtUp_of_not_asked (hpanel ▸ hselected) (hrequests ▸ hasked),
            h.caughtUp_of_not_asked hselected hasked, hmessages, List.foldl_append, hbook]
        rw [if_neg hasked, hself, hcaught, forwarded_eq hsymbols]
        split_ifs with hsubscribed
        · rw [foldl_told_same hsymbols]
          exact hkeeps _ hrep
        · rw [List.foldl_nil]
          constructor
          · intro hrep' partition' hpartition'
            obtain rfl := Option.some.inj (hpartition.symm.trans hpartition')
            exact funext₂ fun side price => (hrep' side price).symm.trans (hrep side price)
          · intro hall side price
            rw [hall partition hpartition]
            exact hrep side price
    · have hnot : s.panel.symbol ≠ symbol.name := fun hnames =>
        hother (MarketDataState.name_inj (hselected.symm.trans hnames))
      refine iff_of_true ?_ fun hnames => (hnot hnames).elim
      obtain ⟨snapshot, hsnapshot, _⟩ := h.exists_snapshot selected sessionId
      have hsnapshot' : (t.partitions selected).orderBook.publishSnapshot
          (t.partitions selected).orderManager sessionId = some snapshot := by
        rw [hothers selected hother]
        exact hsnapshot
      have hforeign (book : OrderBook P) : (s.forwarded new).foldl
          (OrderBook.told selected.name) book = book := by
        rw [forwarded_eq hsymbols]
        split_ifs
        · exact foldl_told_other (Ne.symm hother) hsymbols book
        · rfl
      rw [hothers selected hother, hsound.caughtUp_eq (hpanel ▸ hselected) hsnapshot', hrequests,
        hmessages, hbook, List.foldl_append, hforeign]
      rwa [h.caughtUp_eq hselected hsnapshot] at hrep
  · exact iff_of_true (fun hnow => (hstatus hnow).elim) fun hnow => (hstatus hnow).elim

theorem Sound.step (h : s.Sound history) {event : LiveEvent P}
    (hok : ∀ symbol cmd, event = .command symbol cmd →
      Admissible (newIds (commandsOf symbol history)) cmd) :
    StepsWell clock sessionId history s event := by
  cases event with
  | frame chosen pressed => exact h.frame chosen pressed
  | command symbol cmd => exact h.command (hok symbol cmd rfl)
  | requestRead => exact h.requestRead
  | messageRead => exact h.messageRead

theorem sound_start (currentId : TradeID) : (start currentId : LiveDepth P).Sound [] := by
  refine ⟨fun symbol => ?_, fun symbol => rfl, ⟨.eurusd, rfl⟩, nofun⟩
  exact Partition.invariant_init symbol currentId

omit [FinitePrice P] in
theorem follows_of_valid {σ : Type} {step : σ → LiveEvent P → Option σ}
    {events : List (LiveEvent P)} (h : ∀ symbol, Partition.Valid (commandsOf symbol events))
    (s : σ) : PartialRun.Follows step (fun history _ event => ∀ symbol cmd,
      event = .command symbol cmd → Admissible (newIds (commandsOf symbol history)) cmd)
        [] s events := by
  refine PartialRun.follows_of_history fun pre event post hevents symbol cmd hcommand => ?_
  subst hcommand
  have hcommands : commandsOf symbol events =
      commandsOf symbol pre ++ cmd :: commandsOf symbol post := by
    rw [hevents]
    simp [commandsOf]
  exact (hcommands ▸ h symbol).admissible

/-- Whatever is on its way, the client shows the depth of the exchange as soon as it has
caught up, in exactly the runs whose steps leave it so. -/
theorem live_depth_iff (clock : Clock) (sessionId : SessionID) (currentId : TradeID)
    (events : List (LiveEvent P)) (hvalid : ∀ symbol, Partition.Valid (commandsOf symbol events)) :
    ∃ t, PartialRun.run (step clock sessionId) (start currentId) events = some t ∧
      (PartialRun.Always (step clock sessionId) (Live sessionId) (start currentId) events ↔
        PartialRun.Follows (step clock sessionId) (fun _ => KeepsLive clock) []
          (start currentId) events) := by
  refine PartialRun.always_iff_follows Sound (fun history s event h hok => h.step hok)
    (sound_start currentId) nofun (follows_of_valid hvalid _)

end Proofs

/-- The user subscribes, an order comes to rest, and he unsubscribes. -/
def Sample.events : List (LiveEvent ℚ) :=
  [.frame none true, .command .eurusd (Partition.Sample.submit 1 "S1" .sell .limit 3 10),
    .requestRead, .messageRead, .frame none true, .requestRead,
    .command .eurusd (Partition.Sample.submit 2 "S2" .sell .limit 4 11)]

theorem live_depth_iff_sample :
    ∃ t, PartialRun.run (step (fun _ => 0) 7) (start 0) Sample.events = some t ∧
      (PartialRun.Always (step (fun _ => 0) 7) (Live 7) (start 0) Sample.events ↔
        PartialRun.Follows (step (fun _ => 0) 7) (fun _ => KeepsLive fun _ => 0) []
          (start 0) Sample.events) :=
  live_depth_iff (fun _ => 0) 7 0 Sample.events fun symbol => by cases symbol <;> decide

end LiveDepth

end Client

end BetaTrader
