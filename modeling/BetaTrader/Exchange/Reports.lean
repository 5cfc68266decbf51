import BetaTrader.Exchange.Execution

/-!
# The reports about an order

What a client receives about one of its orders, read off the journal.  An
executed order is reported when it is admitted and once for each booked trade;
an order that a booked fill reaches is reported once.
-/

namespace BetaTrader

open ExecutionPublisher

variable {P : Type}

/-- The reports about the order `id` among others. -/
def reportsAbout (id : OrderID) (reports : List (ExecutionReport P)) :
    List (ExecutionReport P) :=
  reports.filter fun report => report.exchangeOrderId = id

/-- What `publishExecution` and `publishTrade` report about the order `id`. -/
def Event.orderReports (id : OrderID) : Event P → List (ExecutionReport P)
  | .published (.execution order action) => reportsAbout id [publishExecution order action]
  | .published (.trade trade buyOrder sellOrder) =>
      reportsAbout id (publishTrade trade buyOrder sellOrder)
  | _ => []

/-- Everything that is reported about the order `id`. -/
def Event.reports [Zero P] (id : OrderID) : Event P → List (ExecutionReport P)
  | .published publication => reportsAbout id publication.reports
  | _ => []

/-- The report that admits an order. -/
def admissionReport (order : Order P) : Command P → ExecutionReport P
  | .newOrder _ => publishExecution order "NEW"
  | _ => publishExecution order "REPLACED"

/-- The ending of a trade report's id. -/
def OrderSide.suffix : OrderSide → String
  | .buy => "_buy"
  | .sell => "_sell"

@[simp] theorem reportsAbout_execution (id : OrderID) (order : Order P) (action : String) :
    reportsAbout id [publishExecution order action] =
      if order.coreOrderId = id then [publishExecution order action] else [] := by
  by_cases hid : order.coreOrderId = id <;> simp [reportsAbout, publishExecution, hid]

theorem reportsAbout_trade (id : OrderID) (trade : Trade P) {buyOrder sellOrder : Order P}
    (hne : buyOrder.coreOrderId ≠ sellOrder.coreOrderId) :
    reportsAbout id (publishTrade trade buyOrder sellOrder) =
      if buyOrder.coreOrderId = id then [tradeReport trade buyOrder "_buy"]
      else if sellOrder.coreOrderId = id then [tradeReport trade sellOrder "_sell"]
      else [] := by
  by_cases hbuy : buyOrder.coreOrderId = id
  · subst hbuy
    simp [reportsAbout, publishTrade, tradeReport, hne.symm]
  · by_cases hsell : sellOrder.coreOrderId = id <;>
      simp [reportsAbout, publishTrade, tradeReport, hbuy, hsell]

namespace Partition

open Matcher

/-- The reports that `publishExecution` and `publishTrade` emit about the order `id`. -/
def orderReports (s : Partition P) (id : OrderID) : List (ExecutionReport P) :=
  s.journal.flatMap (Event.orderReports id)

/-- All reports about the order `id`. -/
def reports [Zero P] (s : Partition P) (id : OrderID) : List (ExecutionReport P) :=
  s.journal.flatMap (Event.reports id)

/-- The projection reads the reports about `id`, except perhaps rejections. -/
structure ReadsReports (id : OrderID) (f : Event P → List (ExecutionReport P)) : Prop where
  execution : ∀ order action, f (.published (.execution order action)) =
    reportsAbout id [publishExecution order action]
  trade : ∀ trade buyOrder sellOrder, f (.published (.trade trade buyOrder sellOrder)) =
    reportsAbout id (publishTrade trade buyOrder sellOrder)
  enqueued : ∀ task, f (.enqueued task) = []
  refreshed : ∀ refresh, f (.refreshed refresh) = []
  matched : ∀ trades, f (.matched trades) = []

theorem readsReports_orderReports (id : OrderID) :
    ReadsReports id (Event.orderReports (P := P) id) :=
  ⟨fun _ _ => rfl, fun _ _ _ => rfl, fun _ => rfl, fun _ => rfl, fun _ => rfl⟩

theorem readsReports_reports [Zero P] (id : OrderID) :
    ReadsReports id (Event.reports (P := P) id) :=
  ⟨fun _ _ => rfl, fun _ _ _ => rfl, fun _ => rfl, fun _ => rfl, fun _ => rfl⟩

/-- What the booking of a fill reports about the order `id`. -/
def fillReports (served : Order P) (id : OrderID) (f : Order P × ℕ) (trade : Trade P) :
    List (ExecutionReport P) :=
  if served.coreOrderId = id then [tradeReport trade served served.side.suffix]
  else if f.1.coreOrderId = id then
    [tradeReport trade (f.1.giveFill f.2) served.side.opposite.suffix]
  else []

section Reads

variable {id : OrderID} {f : Event P → List (ExecutionReport P)} {s : Partition P}
  {order served : Order P} {cmd : Command P} {clock : Clock}

theorem ReadsReports.cancelled (hf : ReadsReports id f) {id' : OrderID} {action : String} :
    (((s.cancelled clock id').publish (.execution order action)).retire id').journal.flatMap f =
      s.journal.flatMap f ++
        if order.coreOrderId = id then [publishExecution order action] else [] := by
  simp only [cancelled_journal, List.flatMap_append, flatMap_cancelEvents hf.refreshed,
    List.flatMap_cons, List.flatMap_nil, hf.execution, hf.enqueued, List.append_nil,
    List.nil_append, reportsAbout_execution]

@[simp] theorem orderReports_publishRejection (clientId : ClientID) (symbol : Instrument)
    (side : OrderSide) (reason : String) (orderId : OrderID) :
    (s.publishRejection clock orderId clientId symbol side reason).orderReports id =
      s.orderReports id :=
  List.flatMap_append.trans (List.append_nil _)

theorem reports_publishRejection [Zero P] (clientId : ClientID) (symbol : Instrument)
    (side : OrderSide) (reason : String) (orderId : OrderID) :
    (s.publishRejection clock orderId clientId symbol side reason).reports id =
      s.reports id ++ if orderId = id then
        [ExecutionPublisher.publishRejection orderId clientId symbol side reason (clock s.ticks)]
      else [] := by
  refine List.flatMap_append.trans (congrArg (s.reports id ++ ·) ?_)
  by_cases hid : orderId = id <;>
    simp [Event.reports, Publication.reports, reportsAbout, ExecutionPublisher.publishRejection,
      hid]

theorem ReadsReports.fillEvents (hf : ReadsReports id f) {g : Order P × ℕ}
    (hne : served.coreOrderId ≠ g.1.coreOrderId) (trade : Trade P) :
    (fillEvents served g trade).flatMap f = fillReports served id g trade := by
  have hbooked : ∀ buyOrder sellOrder, (bookedEvents trade buyOrder sellOrder).flatMap f =
      reportsAbout id (publishTrade trade buyOrder sellOrder) := by
    intro buyOrder sellOrder
    simp [bookedEvents, hf.enqueued, hf.trade, List.flatMap_map]
  have hne' : served.coreOrderId ≠ (g.1.giveFill g.2).coreOrderId := hne
  rw [Partition.fillEvents, hbooked, fillReports]
  cases hside : served.side with
  | buy =>
      rw [buyer, seller, if_pos hside, if_pos hside, reportsAbout_trade id trade hne']
      rfl
  | sell =>
      have hsell : ¬served.side = .buy := by simp [hside]
      rw [buyer, seller, if_neg hsell, if_neg hsell, reportsAbout_trade id trade hne'.symm]
      by_cases hid : served.coreOrderId = id
      · have hid' : (g.1.giveFill g.2).coreOrderId ≠ id := fun heq => hne' (hid.trans heq.symm)
        rw [if_neg hid', if_pos hid, if_pos hid]
        rfl
      · rw [if_neg hid, if_neg hid]
        rfl

theorem ReadsReports.bookingEvents (hf : ReadsReports id f) (cmd : Command P)
    {fs : List (Order P × ℕ)} (hne : served.coreOrderId ∉ touchedIds fs)
    (trades : List (Trade P)) :
    (bookingEvents (postEvents cmd) served fs trades).flatMap f =
      ((bookedFills served fs).zip trades).flatMap fun p => fillReports served id p.1 p.2 := by
  have hpost : ∀ trade, (postEvents cmd trade).flatMap f = [] := by
    intro trade
    cases cmd <;> simp [postEvents, hf.enqueued]
  rw [flatMap_bookingEvents]
  simp only [hpost, List.nil_append, List.flatMap_eq_nil_iff.mpr fun _ _ => rfl, List.append_nil]
  refine List.flatMap_congr fun p hp => ?_
  have hmem := (bookedFills_prefix_self served fs).subset (List.of_mem_zip hp).1
  exact hf.fillEvents (fun heq => hne (heq ▸ List.mem_map_of_mem hmem)) p.2

theorem ReadsReports.admissionEvents [PriceArith P] (hf : ReadsReports id f)
    (h : s.incomingOrder cmd = some order) :
    (s.admissionEvents clock order cmd).flatMap f =
      if order.coreOrderId = id then [admissionReport order cmd] else [] := by
  cases cmd with
  | newOrder c =>
      simp [Partition.admissionEvents, hf.enqueued, hf.execution, admissionReport]
  | cancelOrder c => simp [incomingOrder] at h
  | modifyOrder c =>
      simp [Partition.admissionEvents, flatMap_cancelEvents hf.refreshed, hf.enqueued,
        hf.execution, admissionReport]

theorem ReadsReports.closingEvents [PriceArith P] (hf : ReadsReports id f) :
    (s.closingEvents order).flatMap f = [] := by
  rw [Partition.closingEvents]
  split_ifs <;> simp [hf.refreshed, hf.enqueued]

end Reads

section Fills

variable {served : Order P} {id : OrderID} {fs : List (Order P × ℕ)}

theorem fillReports_untouched (hid : served.coreOrderId ≠ id) (hfs : id ∉ touchedIds fs)
    (trades : List (Trade P)) :
    ((fs.zip trades).flatMap fun p => fillReports served id p.1 p.2) = [] := by
  refine List.flatMap_eq_nil_iff.mpr fun p hp => ?_
  have hne : p.1.1.coreOrderId ≠ id := fun heq =>
    hfs (heq ▸ List.mem_map_of_mem (List.of_mem_zip hp).1)
  rw [fillReports, if_neg hid, if_neg hne]

/-- An order with a fill is reported with the trade of its fill. -/
theorem fillReports_touched (hnodup : (touchedIds fs).Nodup) {f : Order P × ℕ} (hf : f ∈ fs)
    (hid : served.coreOrderId ≠ f.1.coreOrderId) {trades : List (Trade P)}
    (hlength : fs.length ≤ trades.length) :
    ∃ trade, (f, trade) ∈ fs.zip trades ∧
      ((fs.zip trades).flatMap fun p => fillReports served f.1.coreOrderId p.1 p.2) =
        [tradeReport trade (f.1.giveFill f.2) served.side.opposite.suffix] := by
  induction fs generalizing trades with
  | nil => exact (List.not_mem_nil hf).elim
  | cons g fs ih =>
      cases trades with
      | nil => simp at hlength
      | cons trade trades =>
          rw [touchedIds_cons, List.nodup_cons] at hnodup
          simp only [List.zip_cons_cons, List.flatMap_cons, List.mem_cons]
          rcases List.mem_cons.mp hf with rfl | hf
          · refine ⟨trade, Or.inl rfl, ?_⟩
            rw [fillReports_untouched hid hnodup.1, fillReports, if_neg hid, if_pos rfl,
              List.append_nil]
          · obtain ⟨t, ht, hreports⟩ := ih hnodup.2 hf (Nat.le_of_succ_le_succ hlength)
            have hne : g.1.coreOrderId ≠ f.1.coreOrderId := fun heq =>
              hnodup.1 (heq ▸ List.mem_map_of_mem hf)
            refine ⟨t, Or.inr ht, ?_⟩
            rw [hreports, fillReports, if_neg hid, if_neg hne, List.nil_append]

end Fills

section Executed

variable [PriceArith P] {ids : List OrderID} {s : Partition P} {order : Order P}
  {cmd : Command P} {id : OrderID} {f : Event P → List (ExecutionReport P)}
  (hf : ReadsReports id f) (hinv : s.Sound ids) (hcmd : Admissible ids cmd)
  (h : s.incomingOrder cmd = some order) (clock : Clock)

include hf hinv hcmd h

theorem ReadsReports.executed :
    (s.executed clock order cmd).journal.flatMap f = s.journal.flatMap f ++
      ((if order.coreOrderId = id then [admissionReport order cmd] else []) ++
        ((bookedFills (s.served order) (s.fills order)).zip
          ((s.prepared clock order cmd).trades clock order)).flatMap fun p =>
            fillReports (s.served order) id p.1 p.2) := by
  have hne : (s.served order).coreOrderId ∉ touchedIds (s.fills order) := by
    rw [served_coreOrderId, ← prepared_fills hinv hcmd h clock]
    exact incoming_notMem_touchedIds (hinv.prepared hcmd h clock).matchable
  simp only [executed_journal, List.flatMap_append, List.flatMap_cons, hf.admissionEvents h,
    hf.matched, hf.closingEvents, List.append_nil, List.nil_append,
    prepared_served hinv hcmd h, prepared_fills hinv hcmd h, hf.bookingEvents cmd hne]

omit hf in
theorem ReadsReports.executed_incoming (hf : ReadsReports order.coreOrderId f) :
    (s.executed clock order cmd).journal.flatMap f = s.journal.flatMap f ++
      admissionReport order cmd :: ((bookedFills (s.served order) (s.fills order)).zip
        ((s.prepared clock order cmd).trades clock order)).map fun p =>
          tradeReport p.2 (s.served order) (s.served order).side.suffix := by
  rw [hf.executed hinv hcmd h clock, if_pos rfl]
  simp [fillReports, List.map_eq_flatMap]

theorem ReadsReports.executed_untouched (hid : order.coreOrderId ≠ id)
    (huntouched : id ∉ touchedIds (bookedFills (s.served order) (s.fills order))) :
    (s.executed clock order cmd).journal.flatMap f = s.journal.flatMap f := by
  have hserved : (s.served order).coreOrderId ≠ id := by
    rw [served_coreOrderId]
    exact hid
  rw [hf.executed hinv hcmd h clock, if_neg hid, fillReports_untouched hserved huntouched,
    List.append_nil, List.append_nil]

omit hf in
theorem ReadsReports.executed_touched {g : Order P × ℕ} (hf : ReadsReports g.1.coreOrderId f)
    (hg : g ∈ bookedFills (s.served order) (s.fills order)) :
    ∃ trade suffix, trade.quantity.toNat = g.2 ∧
      (s.executed clock order cmd).journal.flatMap f =
        s.journal.flatMap f ++ [tradeReport trade (g.1.giveFill g.2) suffix] := by
  have hbooked := bookedFills_prefix_self (s.served order) (s.fills order)
  obtain ⟨_, hne, _, hle⟩ := mem_fills hinv hcmd h (hbooked.subset hg)
  have hserved : (s.served order).coreOrderId ≠ g.1.coreOrderId := by
    rw [served_coreOrderId]
    exact hne.symm
  have hnodup : (touchedIds (bookedFills (s.served order) (s.fills order))).Nodup :=
    (nodup_touchedIds_fills hinv hcmd h).sublist (hbooked.map _).sublist
  have htrades := prepared_trades hinv hcmd h clock
  have hlength : (bookedFills (s.served order) (s.fills order)).length ≤
      ((s.prepared clock order cmd).trades clock order).length := by
    rw [htrades, length_tradesOf]
    exact hbooked.length_le
  obtain ⟨trade, hmem, hreports⟩ := fillReports_touched hnodup hg hserved hlength
  rw [htrades] at hmem
  obtain ⟨tradeId, tick, htrade⟩ := mem_zip_tradesOf (Lists.mem_zip_of_prefix hbooked hmem)
  refine ⟨trade, (s.served order).side.opposite.suffix, ?_, ?_⟩
  · have hquantity : trade.quantity = UInt64.ofNat g.2 := congrArg Trade.quantity htrade
    rw [hquantity]
    exact Nat.mod_eq_of_lt (hle.trans_lt (Order.openQuantity_lt g.1))
  · rw [hf.executed hinv hcmd h clock, if_neg hne.symm, hreports, List.nil_append]

end Executed

end Partition

theorem mem_fillReports {served : Order P} {id : OrderID} {f : Order P × ℕ} {trade : Trade P}
    {report : ExecutionReport P} (h : report ∈ Partition.fillReports served id f trade) :
    ∃ order side, report = tradeReport trade order (OrderSide.suffix side) ∧
      ((served.coreOrderId = id ∧ order = served) ∨
        (served.coreOrderId ≠ id ∧ f.1.coreOrderId = id ∧ order = f.1.giveFill f.2)) := by
  rw [Partition.fillReports] at h
  split_ifs at h with hserved hother
  · exact ⟨served, served.side, List.mem_singleton.mp h, Or.inl ⟨hserved, rfl⟩⟩
  · exact ⟨_, _, List.mem_singleton.mp h, Or.inr ⟨hserved, hother, rfl⟩⟩
  · exact (List.not_mem_nil h).elim

end BetaTrader
