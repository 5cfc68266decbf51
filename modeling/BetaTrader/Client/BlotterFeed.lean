import BetaTrader.Client.BlotterModel
import BetaTrader.Exchange.Reports

/-!
# The reports of the exchange in the blotter

Every report about an order carries its client's id, and the reports about trades
carry ids of their own.  The other reports of an order share one id, so that two of
them are told apart by what they say only.
-/

namespace BetaTrader

open ExecutionPublisher Client

variable {P : Type}

/-! ## Ids of reports -/

def tradeExecutionId (tradeId : TradeID) (side : OrderSide) : String :=
  "exec_trade_" ++ toString tradeId ++ side.suffix

theorem toList_toString (n : ℕ) : (toString n).toList = Decimal.natText n := by
  simp [Decimal.natText, Nat.repr]

theorem toList_tradeExecutionId (tradeId : TradeID) (side : OrderSide) :
    (tradeExecutionId tradeId side).toList =
      "exec_trade_".toList ++ (Decimal.natText tradeId ++ '_' :: side.suffix.toList.tail) := by
  rw [tradeExecutionId, String.toList_append, String.toList_append, toList_toString,
    List.append_assoc]
  cases side <;> rfl

theorem tradeId_of_executionId {tradeId tradeId' : TradeID} {side side' : OrderSide}
    (h : tradeExecutionId tradeId side = tradeExecutionId tradeId' side') :
    tradeId = tradeId' := by
  have htext := congrArg String.toList h
  rw [toList_tradeExecutionId, toList_tradeExecutionId, List.append_cancel_left_eq] at htext
  have hnumber : ∀ n, '_' ∉ Decimal.natText n := FixUtils.notMem_natText (by decide)
  have hsplit := congrArg (Text.splitFirst '_') htext
  rw [Text.splitFirst_append (hnumber _), Text.splitFirst_append (hnumber _)] at hsplit
  have hvalue := congrArg Strtoul.value (Prod.mk.inj (Option.some.inj hsplit)).1
  rwa [Decimal.value_natText, Decimal.value_natText] at hvalue

theorem bar_notMem_tradeExecutionId (tradeId : TradeID) (side : OrderSide) :
    '|' ∉ (tradeExecutionId tradeId side).toList := by
  have hnumber : '|' ∉ Decimal.natText tradeId := FixUtils.notMem_natText (by decide) tradeId
  rw [toList_tradeExecutionId, List.mem_append, List.mem_append, not_or, not_or]
  exact ⟨by decide, hnumber, by cases side <;> decide⟩

theorem bar_notMem_executionId (id : OrderID) : '|' ∉ ("exec_" ++ idText id).toList := by
  have hnumber : '|' ∉ Decimal.natText id.toNat := FixUtils.notMem_natText (by decide) _
  rw [String.toList_append, idText, toList_toString, List.mem_append, not_or]
  exact ⟨by decide, hnumber⟩

@[simp] theorem publishExecution_text (order : Order P) (action : String) :
    (publishExecution order action).text = action := rfl

@[simp] theorem tradeReport_text (trade : Trade P) (order : Order P) (suffix : String) :
    (tradeReport trade order suffix).text = "TRADE" := rfl

/-- What `publishExecution` and `publishTrade` report about the order `id`, when the
trade ids have come to `currentId`. -/
inductive Issued (id : OrderID) (currentId : TradeID) : ExecutionReport P → Prop where
  | entered (order : Order P) (hid : order.coreOrderId = id) :
      Issued id currentId (publishExecution order "NEW")
  | replaced (order : Order P) (hid : order.coreOrderId = id) (hnew : order.IsNew) :
      Issued id currentId (publishExecution order "REPLACED")
  | cancelled (order : Order P) (hid : order.coreOrderId = id) :
      Issued id currentId (publishExecution order "CANCELED")
  | traded (trade : Trade P) (order : Order P) (side : OrderSide)
      (hle : trade.tradeId ≤ currentId) : Issued id currentId (tradeReport trade order side.suffix)

section Issued

variable {id : OrderID} {currentId currentId' : TradeID} {report report' : ExecutionReport P}

theorem Issued.mono (h : Issued id currentId report) (hle : currentId ≤ currentId') :
    Issued id currentId' report := by
  cases h with
  | entered order hid => exact .entered order hid
  | replaced order hid hnew => exact .replaced order hid hnew
  | cancelled order hid => exact .cancelled order hid
  | traded trade order side htrade => exact .traded trade order side (htrade.trans hle)

theorem Issued.executionId_ne (h : Issued id currentId report) : report.executionId ≠ "" := by
  have hne : ∀ s t : String, s ≠ "" → s ++ t ≠ "" := by
    intro s t hs heq
    exact hs (String.append_eq_empty_iff.mp heq).1
  cases h with
  | entered order hid => exact hne _ _ (by decide)
  | replaced order hid _ => exact hne _ _ (by decide)
  | cancelled order hid => exact hne _ _ (by decide)
  | traded trade order side _ => exact hne _ _ (hne _ _ (by decide))

theorem Issued.bar_notMem (h : Issued id currentId report) :
    '|' ∉ report.executionId.toList ∧ '|' ∉ report.text.toList := by
  have htexts : ∀ text ∈ ["NEW", "REPLACED", "CANCELED", "TRADE"], '|' ∉ text.toList := by decide
  cases h with
  | entered order hid => exact ⟨bar_notMem_executionId _, htexts _ (by simp)⟩
  | replaced order hid _ => exact ⟨bar_notMem_executionId _, htexts _ (by simp)⟩
  | cancelled order hid => exact ⟨bar_notMem_executionId _, htexts _ (by simp)⟩
  | traded trade order side _ => exact ⟨bar_notMem_tradeExecutionId _ side, htexts _ (by simp)⟩

theorem Issued.tradeId_le (h : Issued id currentId report) {tradeId : TradeID} {side : OrderSide}
    (htext : report.text = "TRADE") (hid : report.executionId = tradeExecutionId tradeId side) :
    tradeId ≤ currentId := by
  cases h with
  | entered order _ => simp at htext
  | replaced order _ _ => simp at htext
  | cancelled order _ => simp at htext
  | traded trade order side' hle => exact tradeId_of_executionId hid ▸ hle

/-- A replace that is reported shows the order as it has been entered anew. -/
theorem Issued.of_replaced (h : Issued id currentId report) (htext : report.text = "REPLACED") :
    report.executionId = "exec_" ++ idText id ∧ report.status = .new ∧
      report.cumulativeQuantity = 0 ∧ report.lastQuantity = 0 := by
  cases h with
  | entered order hid => simp at htext
  | replaced order hid hnew =>
      refine ⟨by rw [← hid]; rfl, by simp [publishExecution, hnew.2], ?_, rfl⟩
      simp [publishExecution, hnew.1]
  | cancelled order hid => simp at htext
  | traded trade order side _ => simp at htext

end Issued

/-! ## The reports of a run -/

section Fills

variable {served : Order P} {id : OrderID}

theorem executionId_of_mem_fillReports {f : Order P × ℕ} {trade : Trade P}
    {report : ExecutionReport P} (h : report ∈ Partition.fillReports served id f trade) :
    ∃ side, report.executionId = tradeExecutionId trade.tradeId side := by
  obtain ⟨order, side, rfl, _⟩ := mem_fillReports h
  exact ⟨side, rfl⟩

/-- Trades with increasing ids are reported with different ids. -/
theorem nodup_fillReports {fills : List ((Order P × ℕ) × Trade P)}
    (h : (fills.map fun p => p.2.tradeId).Pairwise (· < ·)) :
    ((fills.flatMap fun p => Partition.fillReports served id p.1 p.2).map
      ExecutionReport.executionId).Nodup := by
  induction fills with
  | nil => exact List.nodup_nil
  | cons p fills ih =>
      rw [List.map_cons, List.pairwise_cons] at h
      rw [List.flatMap_cons, List.map_append, List.nodup_append]
      refine ⟨?_, ih h.2, ?_⟩
      · rw [Partition.fillReports]
        split_ifs <;> simp
      · rintro _ hfirst _ hrest heq
        obtain ⟨report, hreport, rfl⟩ := List.mem_map.mp hfirst
        obtain ⟨report', hreport', rfl⟩ := List.mem_map.mp hrest
        obtain ⟨p', hp', hreport'⟩ := List.mem_flatMap.mp hreport'
        obtain ⟨side, hid⟩ := executionId_of_mem_fillReports hreport
        obtain ⟨side', hid'⟩ := executionId_of_mem_fillReports hreport'
        have hlt := h.1 _ (List.mem_map_of_mem hp')
        exact hlt.ne (tradeId_of_executionId (hid.symm.trans (heq.trans hid')))

end Fills

namespace Partition

open Matcher

/-- What a report other than a replace is told apart by. -/
def stamp (report : ExecutionReport P) : String × String := (report.executionId, report.text)

/-- What the reports about an order have in common, and what tells them apart. -/
structure Trail (history : List (Command P)) (s : Partition P) (id : OrderID) : Prop where
  issued : ∀ report ∈ s.orderReports id, Issued id s.currentId report
  once : (((s.orderReports id).filter fun report => report.text ≠ "REPLACED").map stamp).Nodup
  unclosed : s.orderManager.orderMap id ≠ none → ∀ report ∈ s.orderReports id,
    report.text ≠ "CANCELED"
  entered : ∀ report ∈ s.orderReports id, id ∈ newIds history
  client : ∀ c, .newOrder c ∈ history → c.order.coreOrderId = id →
    (∀ report ∈ s.orderReports id, report.clientOrderId = c.order.clientOrderId) ∧
      ∀ order, s.orderManager.orderMap id = some order →
        order.clientOrderId = c.order.clientOrderId

theorem trail_init (symbol : Instrument) (currentId : TradeID) (id : OrderID) :
    (init symbol currentId : Partition P).Trail [] id := by
  constructor <;> simp [init, orderReports]

section Steps

variable [PriceArith P] {history : List (Command P)} {s s' : Partition P} {order : Order P}
  {cmd : Command P} {clock : Clock} {id : OrderID}

/-- The fills that are booked, with their trades. -/
def bookedTrades (s : Partition P) (clock : Clock) (order : Order P) (cmd : Command P) :
    List ((Order P × ℕ) × Trade P) :=
  (bookedFills (s.served order) (s.fills order)).zip
    ((s.prepared clock order cmd).trades clock order)

/-- What an executed order adds to the reports about the order `id`. -/
def newReports (s : Partition P) (clock : Clock) (order : Order P) (cmd : Command P)
    (id : OrderID) : List (ExecutionReport P) :=
  (if order.coreOrderId = id then [admissionReport order cmd] else []) ++
    (s.bookedTrades clock order cmd).flatMap fun p => fillReports (s.served order) id p.1 p.2

section Executed

variable (hinv : s.Sound (newIds history)) (hcmd : Admissible (newIds history) cmd)
  (h : s.incomingOrder cmd = some order) (clock : Clock)

include hinv hcmd h

theorem orderReports_executed (id : OrderID) : (s.executed clock order cmd).orderReports id =
    s.orderReports id ++ s.newReports clock order cmd id :=
  (readsReports_orderReports id).executed hinv hcmd h clock

theorem currentId_executed : (s.executed clock order cmd).currentId =
    s.currentId + (s.fills order).length := by
  rw [executed, afterAll_currentId, prepared_fills hinv hcmd h, prepared_currentId]

/-- The trade ids of an executed order are the next ones. -/
theorem bookedTrades_ids : ((s.bookedTrades clock order cmd).map fun p => p.2.tradeId) <+:
    List.range' (s.currentId + 1) (s.fills order).length := by
  have hmap : ((s.bookedTrades clock order cmd).map fun p => p.2.tradeId) =
      ((s.bookedTrades clock order cmd).map Prod.snd).map Trade.tradeId := by
    rw [List.map_map]
    rfl
  rw [hmap, bookedTrades, Lists.zip_map_snd, prepared_trades hinv hcmd h,
    ← map_tradeId_tradesOf clock order (s.fills order) s.currentId
      (s.prepared clock order cmd).ticks]
  exact (List.take_prefix _ _).map _

theorem mem_bookedTrades {p : (Order P × ℕ) × Trade P} (hp : p ∈ s.bookedTrades clock order cmd) :
    s.orderManager.orderMap p.1.1.coreOrderId = some p.1.1 ∧ s.currentId < p.2.tradeId ∧
      p.2.tradeId ≤ (s.executed clock order cmd).currentId := by
  have hfill : p.1 ∈ s.fills order :=
    (bookedFills_prefix_self _ _).subset (List.of_mem_zip hp).1
  have hid := (bookedTrades_ids hinv hcmd h clock).subset (List.mem_map_of_mem hp)
  rw [List.mem_range'_1] at hid
  rw [currentId_executed hinv hcmd h]
  exact ⟨(mem_fills hinv hcmd h hfill).1, hid.1,
    Nat.le_of_lt_succ (hid.2.trans_eq (Nat.add_right_comm _ _ _))⟩

/-- Every new report is about the incoming order, or about a registered one. -/
theorem mem_newReports {report : ExecutionReport P}
    (hreport : report ∈ s.newReports clock order cmd id) :
    (order.coreOrderId = id ∧ report = admissionReport order cmd) ∨
    (order.coreOrderId = id ∧ ∃ trade side, report =
      tradeReport trade (s.served order) (OrderSide.suffix side) ∧
        s.currentId < trade.tradeId ∧
        trade.tradeId ≤ (s.executed clock order cmd).currentId) ∨
    (order.coreOrderId ≠ id ∧ ∃ trade side old amount,
      s.orderManager.orderMap id = some old ∧
      report = tradeReport trade (old.giveFill amount) (OrderSide.suffix side) ∧
        s.currentId < trade.tradeId ∧
        trade.tradeId ≤ (s.executed clock order cmd).currentId) := by
  rcases List.mem_append.mp hreport with hreport | hreport
  · split_ifs at hreport with hid
    · exact Or.inl ⟨hid, List.mem_singleton.mp hreport⟩
    · exact (List.not_mem_nil hreport).elim
  · obtain ⟨p, hp, hreport⟩ := List.mem_flatMap.mp hreport
    obtain ⟨hold, hids⟩ := mem_bookedTrades hinv hcmd h clock hp
    obtain ⟨reported, side, rfl, hserved | hother⟩ := mem_fillReports hreport
    · obtain ⟨hid, rfl⟩ := hserved
      rw [served_coreOrderId] at hid
      exact Or.inr (Or.inl ⟨hid, p.2, side, rfl, hids⟩)
    · obtain ⟨hid, rfl, rfl⟩ := hother
      rw [served_coreOrderId] at hid
      exact Or.inr (Or.inr ⟨hid, p.2, side, p.1.1, p.1.2, hold, rfl, hids⟩)

/-- What a command admits is entered for the first time, or again. -/
theorem admissionReport_cases :
    ((∃ c, cmd = .newOrder c ∧ order = c.order) ∧ order.coreOrderId ∉ newIds history ∧
      s.orderManager.orderMap order.coreOrderId = none ∧
      admissionReport order cmd = publishExecution order "NEW") ∨
    (∃ c old, cmd = .modifyOrder c ∧ order = c.applyTo old ∧ order.coreOrderId ∈ newIds history ∧
      s.orderManager.orderMap order.coreOrderId = some old ∧
      admissionReport order cmd = publishExecution order "REPLACED") := by
  rcases incomingOrder_cases hinv hcmd h with
    ⟨c, rfl, rfl, _, hnone, hnew, _⟩ | ⟨c, old, rfl, rfl, _, hold, hmem, _⟩
  · exact Or.inl ⟨⟨c, rfl, rfl⟩, hnew, hnone, rfl⟩
  · exact Or.inr ⟨c, old, rfl, rfl, hmem, hold, rfl⟩

theorem issued_newReports {report : ExecutionReport P}
    (hreport : report ∈ s.newReports clock order cmd id) :
    Issued id (s.executed clock order cmd).currentId report := by
  rcases mem_newReports hinv hcmd h clock hreport with
    ⟨hid, rfl⟩ | ⟨_, trade, side, rfl, _, hle⟩ | ⟨_, trade, side, _, _, _, rfl, _, hle⟩
  · rcases admissionReport_cases hinv hcmd h with ⟨_, _, _, heq⟩ | ⟨_, _, _, _, _, _, heq⟩
    · rw [heq]
      exact .entered order hid
    · rw [heq]
      exact .replaced order hid (incomingOrder_quantity h)
  · exact .traded _ _ _ hle
  · exact .traded _ _ _ hle

/-- No order is reported before it has been entered. -/
theorem entered_newReports {report : ExecutionReport P}
    (hreport : report ∈ s.newReports clock order cmd id) : id ∈ newIds history ++ cmd.newIds := by
  rcases mem_newReports hinv hcmd h clock hreport with
    ⟨hid, _⟩ | ⟨hid, _⟩ | ⟨_, _, _, old, _, hold, _⟩
  · rw [← hid]
    exact (hinv.prepared hcmd h clock).incoming_id
  · rw [← hid]
    exact (hinv.prepared hcmd h clock).incoming_id
  · exact List.mem_append_left _ (hinv.managed id old hold).2.2

/-- The reports of an order carry the client's id that it and its forerunner have. -/
theorem client_newReports {client : ClientOrderID}
    (hold : ∀ old, s.orderManager.orderMap id = some old → old.clientOrderId = client)
    (hincoming : order.coreOrderId = id → order.clientOrderId = client)
    {report : ExecutionReport P} (hreport : report ∈ s.newReports clock order cmd id) :
    report.clientOrderId = client := by
  rcases mem_newReports hinv hcmd h clock hreport with
    ⟨hid, rfl⟩ | ⟨hid, trade, side, rfl, _⟩ | ⟨_, trade, side, old, amount, hreg, rfl, _⟩
  · cases cmd <;> exact hincoming hid
  · exact served_clientOrderId.trans (hincoming hid)
  · exact hold old hreg

/-- The reports other than replaces that a command adds are new. -/
theorem once_executed (htrail : s.Trail history id) :
    ((((s.executed clock order cmd).orderReports id).filter fun report =>
      report.text ≠ "REPLACED").map stamp).Nodup := by
  rw [orderReports_executed hinv hcmd h, List.filter_append, List.map_append, List.nodup_append]
  refine ⟨htrail.once, ?_, ?_⟩
  · have htrades : ∀ report ∈ (s.bookedTrades clock order cmd).flatMap
        fun p => fillReports (s.served order) id p.1 p.2, report.text = "TRADE" := by
      intro report hreport
      obtain ⟨p, _, hreport⟩ := List.mem_flatMap.mp hreport
      obtain ⟨_, _, rfl, _⟩ := mem_fillReports hreport
      rfl
    have hids : (((s.bookedTrades clock order cmd).flatMap
        fun p => fillReports (s.served order) id p.1 p.2).map
          ExecutionReport.executionId).Nodup :=
      nodup_fillReports (List.Pairwise.sublist (bookedTrades_ids hinv hcmd h clock).sublist
        List.pairwise_lt_range')
    have hnodup : (((s.bookedTrades clock order cmd).flatMap
        fun p => fillReports (s.served order) id p.1 p.2).map stamp).Nodup :=
      List.Nodup.of_map Prod.fst (by rwa [List.map_map])
    rw [newReports, List.filter_append, List.map_append, List.nodup_append]
    refine ⟨?_, hnodup.sublist (List.filter_sublist.map stamp), ?_⟩
    · split_ifs
      · exact (List.nodup_singleton _).sublist (List.filter_sublist.map stamp)
      · exact List.nodup_nil
    · rintro _ hfirst _ hrest rfl
      obtain ⟨report, hreport, rfl⟩ := List.mem_map.mp hfirst
      obtain ⟨report', hreport', heq⟩ := List.mem_map.mp hrest
      have htext := htrades report' (List.mem_filter.mp hreport').1
      rw [(Prod.mk.inj heq).2] at htext
      have hmem := (List.mem_filter.mp hreport).1
      split_ifs at hmem
      · obtain rfl := List.mem_singleton.mp hmem
        rcases admissionReport_cases hinv hcmd h with ⟨_, _, _, hnew⟩ | ⟨_, _, _, _, _, _, hnew⟩
        · simp [hnew] at htext
        · simp [hnew] at htext
      · exact List.not_mem_nil hmem
  · rintro _ hold _ hnew rfl
    obtain ⟨report, hreport, rfl⟩ := List.mem_map.mp hold
    obtain ⟨report', hreport', heq⟩ := List.mem_map.mp hnew
    obtain ⟨hid, htext⟩ := Prod.mk.inj heq
    obtain ⟨hreport, _⟩ := List.mem_filter.mp hreport
    obtain ⟨hreport', hreplaced⟩ := List.mem_filter.mp hreport'
    rcases mem_newReports hinv hcmd h clock hreport' with
      ⟨rfl, rfl⟩ | ⟨_, trade, side, rfl, hlt, _⟩ | ⟨_, trade, side, _, _, _, rfl, hlt, _⟩
    · rcases admissionReport_cases hinv hcmd h with ⟨_, hfresh, _⟩ | ⟨_, _, _, _, _, _, hrefill⟩
      · exact hfresh (htrail.entered report hreport)
      · simp [hrefill] at hreplaced
    · exact absurd ((htrail.issued report hreport).tradeId_le htext.symm hid.symm) hlt.not_ge
    · exact absurd ((htrail.issued report hreport).tradeId_le htext.symm hid.symm) hlt.not_ge

theorem unclosed_executed (htrail : s.Trail history id)
    (hregistered : (s.executed clock order cmd).orderManager.orderMap id ≠ none) :
    ∀ report ∈ (s.executed clock order cmd).orderReports id, report.text ≠ "CANCELED" := by
  intro report hreport
  rw [orderReports_executed hinv hcmd h] at hreport
  rcases List.mem_append.mp hreport with hreport | hreport
  · apply htrail.unclosed _ report hreport
    obtain ⟨order', horder'⟩ := Option.ne_none_iff_exists'.mp hregistered
    rcases executed_registered hinv hcmd h clock horder' with
      ⟨rfl, _⟩ | ⟨_, hold⟩ | ⟨_, _, _, hold, _⟩
    · rcases admissionReport_cases hinv hcmd h with ⟨_, hfresh, _⟩ | ⟨_, _, _, _, _, hold, _⟩
      · exact absurd (htrail.entered report hreport) hfresh
      · simp [hold]
    · simp [hold]
    · simp [hold]
  · rcases mem_newReports hinv hcmd h clock hreport with
      ⟨_, rfl⟩ | ⟨_, trade, side, rfl, _⟩ | ⟨_, trade, side, _, _, _, rfl, _⟩
    · rcases admissionReport_cases hinv hcmd h with ⟨_, _, _, heq⟩ | ⟨_, _, _, _, _, _, heq⟩
      · simp [heq]
      · simp [heq]
    · simp
    · simp

/-- The reports and the registered order carry the id that the client has entered. -/
theorem client_executed (htrail : s.Trail history id) {c : NewOrder P}
    (hc : .newOrder c ∈ history ++ [cmd]) (hid : c.order.coreOrderId = id) :
    (∀ report ∈ (s.executed clock order cmd).orderReports id,
      report.clientOrderId = c.order.clientOrderId) ∧
      ∀ order', (s.executed clock order cmd).orderManager.orderMap id = some order' →
        order'.clientOrderId = c.order.clientOrderId := by
  obtain ⟨hreports, hold, hincoming⟩ :
      (∀ report ∈ s.orderReports id, report.clientOrderId = c.order.clientOrderId) ∧
      (∀ old, s.orderManager.orderMap id = some old →
        old.clientOrderId = c.order.clientOrderId) ∧
      (order.coreOrderId = id → order.clientOrderId = c.order.clientOrderId) := by
    rcases List.mem_append.mp hc with hc | hc
    · obtain ⟨hreports, hold⟩ := htrail.client c hc hid
      refine ⟨hreports, hold, fun heq => ?_⟩
      have hmem : order.coreOrderId ∈ newIds history := by
        rw [heq, ← hid]
        exact List.mem_flatMap.mpr ⟨_, hc, List.mem_singleton_self _⟩
      rcases admissionReport_cases hinv hcmd h with ⟨_, hfresh, _⟩ | ⟨_, old, _, rfl, _, hreg, _⟩
      · exact absurd hmem hfresh
      · exact hold old (heq ▸ hreg)
    · obtain rfl := List.mem_singleton.mp hc
      have hfresh : id ∉ newIds history := hid ▸ hcmd.1 _ (List.mem_singleton_self _)
      refine ⟨fun report hreport => absurd (htrail.entered report hreport) hfresh,
        fun old hreg => absurd (hinv.managed id old hreg).2.2 hfresh, fun _ => ?_⟩
      rcases admissionReport_cases hinv hcmd h with ⟨⟨c', hc', rfl⟩, _⟩ | ⟨_, _, hmodify, _⟩
      · rw [Command.newOrder.inj hc']
      · cases hmodify
  constructor
  · intro report hreport
    rw [orderReports_executed hinv hcmd h] at hreport
    rcases List.mem_append.mp hreport with hreport | hreport
    · exact hreports report hreport
    · exact client_newReports hinv hcmd h clock hold hincoming hreport
  · intro order' horder'
    rcases executed_registered hinv hcmd h clock horder' with
      ⟨rfl, _, rfl⟩ | ⟨_, hsame⟩ | ⟨_, f, _, hsame, rfl⟩
    · exact served_clientOrderId.trans (hincoming rfl)
    · exact hold order' hsame
    · exact hold f.1 hsame

theorem trail_executed (htrail : s.Trail history id) :
    (s.executed clock order cmd).Trail (history ++ [cmd]) id where
  issued := by
    intro report hreport
    rw [orderReports_executed hinv hcmd h] at hreport
    rcases List.mem_append.mp hreport with hreport | hreport
    · apply (htrail.issued report hreport).mono
      rw [currentId_executed hinv hcmd h]
      exact Nat.le_add_right _ _
    · exact issued_newReports hinv hcmd h clock hreport
  once := once_executed hinv hcmd h clock htrail
  unclosed := unclosed_executed hinv hcmd h clock htrail
  entered := by
    intro report hreport
    rw [orderReports_executed hinv hcmd h] at hreport
    rw [newIds_concat]
    rcases List.mem_append.mp hreport with hreport | hreport
    · exact List.mem_append_left _ (htrail.entered report hreport)
    · exact entered_newReports hinv hcmd h clock hreport
  client := fun c hc hid => client_executed hinv hcmd h clock htrail hc hid

end Executed

omit [PriceArith P] in
/-- What a new order says of ids that have not been entered before. -/
theorem Trail.client_concat (htrail : s.Trail history id) (hinv : s.Sound (newIds history))
    (hcmd : Admissible (newIds history) cmd) {c : NewOrder P}
    (hc : .newOrder c ∈ history ++ [cmd]) (hid : c.order.coreOrderId = id) :
    (∀ report ∈ s.orderReports id, report.clientOrderId = c.order.clientOrderId) ∧
      ∀ order, s.orderManager.orderMap id = some order →
        order.clientOrderId = c.order.clientOrderId := by
  rcases List.mem_append.mp hc with hc | hc
  · exact htrail.client c hc hid
  · obtain rfl := List.mem_singleton.mp hc
    have hfresh : id ∉ newIds history := hid ▸ hcmd.1 _ (List.mem_singleton_self _)
    exact ⟨fun report hreport => absurd (htrail.entered report hreport) hfresh,
      fun old hreg => absurd (hinv.managed id old hreg).2.2 hfresh⟩

omit [PriceArith P] in
/-- Nothing is reported of an order that the command leaves alone. -/
theorem Trail.of_same (htrail : s.Trail history id) (hinv : s.Sound (newIds history))
    (hcmd : Admissible (newIds history) cmd) (hid : s'.currentId = s.currentId)
    (hreports : s'.orderReports id = s.orderReports id)
    (horders : ∀ order, s'.orderManager.orderMap id = some order →
      s.orderManager.orderMap id = some order) : s'.Trail (history ++ [cmd]) id where
  issued := by
    rw [hreports, hid]
    exact htrail.issued
  once := by
    rw [hreports]
    exact htrail.once
  unclosed := by
    intro hregistered
    obtain ⟨order, horder⟩ := Option.ne_none_iff_exists'.mp hregistered
    rw [hreports]
    exact htrail.unclosed (by simp [horders order horder])
  entered := by
    rw [hreports, newIds_concat]
    exact fun report hreport => List.mem_append_left _ (htrail.entered report hreport)
  client := by
    intro c hc hcid
    obtain ⟨hclient, hold⟩ := htrail.client_concat hinv hcmd hc hcid
    rw [hreports]
    exact ⟨hclient, fun order horder => hold order (horders order horder)⟩

omit [PriceArith P] in
theorem trail_cancelled {c : CancelOrder} (htrail : s.Trail history id)
    (hinv : s.Sound (newIds history))
    (hcmd : Admissible (newIds history) (.cancelOrder c : Command P))
    (horder : s.orderManager.orderMap c.orderId = some order) (clock : Clock) :
    (((s.cancelled clock c.orderId).publish (.execution order "CANCELED")).retire c.orderId).Trail
      (history ++ [.cancelOrder c]) id := by
  have hreports : (((s.cancelled clock c.orderId).publish
      (.execution order "CANCELED")).retire c.orderId).orderReports id = _ :=
    (readsReports_orderReports id).cancelled
  have hcoreId := (hinv.managed _ order horder).1
  by_cases hid : order.coreOrderId = id
  · rw [if_pos hid] at hreports
    have hid' : c.orderId = id := hcoreId.symm.trans hid
    have hgone : (((s.cancelled clock c.orderId).publish
        (.execution order "CANCELED")).retire c.orderId).orderManager.orderMap id = none := by
      rw [retire, OrderManager.removeOrderById_orderMap, if_pos hid'.symm]
    refine ⟨?_, ?_, fun hregistered => absurd hgone hregistered, ?_, ?_⟩
    · rw [hreports]
      intro report hreport
      rcases List.mem_append.mp hreport with hreport | hreport
      · exact htrail.issued report hreport
      · rw [List.mem_singleton.mp hreport]
        exact .cancelled order hid
    · rw [hreports, List.filter_append, List.map_append, List.nodup_append]
      refine ⟨htrail.once, by simp, ?_⟩
      rintro _ hold _ hnew rfl
      obtain ⟨report, hreport, heq⟩ := List.mem_map.mp hold
      obtain ⟨report', hreport', heq'⟩ := List.mem_map.mp hnew
      obtain rfl := List.mem_singleton.mp (List.mem_filter.mp hreport').1
      have htext := (Prod.mk.inj (heq.trans heq'.symm)).2
      exact htrail.unclosed (by simp [← hid', horder]) report (List.mem_filter.mp hreport).1 htext
    · rw [hreports, newIds_concat]
      intro report hreport
      exact List.mem_append_left _ (hid' ▸ (hinv.managed _ order horder).2.2)
    · intro c' hc' hcid
      obtain ⟨hclient, hold⟩ := htrail.client_concat hinv hcmd hc' hcid
      refine ⟨fun report hreport => ?_, fun order' horder' => ?_⟩
      swap
      · cases horder'.symm.trans hgone
      rw [hreports] at hreport
      rcases List.mem_append.mp hreport with hreport | hreport
      · exact hclient report hreport
      · rw [List.mem_singleton.mp hreport]
        exact hold order (hid' ▸ horder)
  · rw [if_neg hid, List.append_nil] at hreports
    exact htrail.of_same hinv hcmd rfl hreports fun order' horder' =>
      (OrderManager.orderMap_of_removeOrderById horder').2

theorem trail_step (htrail : s.Trail history id) (hinv : s.Sound (newIds history))
    (hcmd : Admissible (newIds history) cmd) (h : processCommand clock s cmd = some s') :
    s'.Trail (history ++ [cmd]) id := by
  rcases processCommand_cases hinv hcmd clock with
    ⟨_, clientId, symbol, side, reason, heq⟩ | ⟨c, order, rfl, horder, _, heq⟩ |
      ⟨order, hincoming, heq⟩
  · obtain rfl := Option.some.inj (heq.symm.trans h)
    exact htrail.of_same hinv hcmd rfl (orderReports_publishRejection ..) fun _ h => h
  · obtain rfl := Option.some.inj (heq.symm.trans h)
    exact trail_cancelled htrail hinv hcmd horder clock
  · obtain rfl := Option.some.inj (heq.symm.trans h)
    exact trail_executed hinv hcmd hincoming clock htrail

end Steps

/-! ## Replaces -/

section Replaces

variable [PriceArith P] [StreamPrice P]

/-- The price, as it is printed, and the quantity of a replace of the order `id` that
finds it. -/
def replaceOf (s : Partition P) (id : OrderID) : Command P → List (Message × Quantity)
  | .modifyOrder c =>
      if c.orderId = id ∧ (s.orderManager.getOrderById id).isSome then
        [(StreamPrice.text c.newPrice, c.newQuantity)]
      else []
  | _ => []

/-- The replaces of the order `id` that find it, in a run. -/
def replacesOf (clock : Clock) (id : OrderID) : Partition P → List (Command P) →
    List (Message × Quantity)
  | _, [] => []
  | s, cmd :: commands =>
      s.replaceOf id cmd ++ match processCommand clock s cmd with
        | none => []
        | some t => replacesOf clock id t commands

/-- What the replaces say, as they have been reported. -/
def reportedReplaces (s : Partition P) (id : OrderID) : List (Message × Quantity) :=
  ((s.orderReports id).filter fun report => report.text = "REPLACED").map
    fun report => (StreamPrice.text report.lastPrice, report.leavesQuantity)

variable {history : List (Command P)} {s s' : Partition P} {order : Order P} {cmd : Command P}
  {clock : Clock} {id : OrderID}

theorem reportedReplaces_executed (hinv : s.Sound (newIds history))
    (hcmd : Admissible (newIds history) cmd) (h : s.incomingOrder cmd = some order)
    (clock : Clock) (id : OrderID) : (s.executed clock order cmd).reportedReplaces id =
      s.reportedReplaces id ++ s.replaceOf id cmd := by
  have htrades : ((s.bookedTrades clock order cmd).flatMap
      fun p => fillReports (s.served order) id p.1 p.2).filter
        (fun report => report.text = "REPLACED") = [] := by
    rw [List.filter_eq_nil_iff]
    intro report hreport
    obtain ⟨p, _, hreport⟩ := List.mem_flatMap.mp hreport
    obtain ⟨_, _, rfl, _⟩ := mem_fillReports hreport
    simp
  rw [reportedReplaces, orderReports_executed hinv hcmd h, List.filter_append, List.map_append,
    newReports, List.filter_append, htrades, List.append_nil]
  refine congrArg (s.reportedReplaces id ++ ·) ?_
  rcases incomingOrder_cases hinv hcmd h with
    ⟨c, rfl, rfl, _⟩ | ⟨c, old, rfl, rfl, hid, hold, _⟩
  · split_ifs <;> simp [admissionReport, replaceOf]
  · by_cases heq : (c.applyTo old).coreOrderId = id
    · have hfound : (s.orderManager.getOrderById id).isSome := by
        rw [OrderManager.getOrderById, ← heq, hold]
        rfl
      rw [if_pos heq, replaceOf, if_pos ⟨hid.trans heq, hfound⟩]
      simp [admissionReport, publishExecution, ModifyOrder.applyTo]
    · rw [if_neg heq, replaceOf, if_neg fun hfound => heq (hid.symm.trans hfound.1)]
      rfl

theorem reportedReplaces_step (hinv : s.Sound (newIds history))
    (hcmd : Admissible (newIds history) cmd) (h : processCommand clock s cmd = some s')
    (id : OrderID) : s'.reportedReplaces id = s.reportedReplaces id ++ s.replaceOf id cmd := by
  have hnone : s.incomingOrder cmd = none → s.replaceOf id cmd = [] := by
    intro hincoming
    cases cmd with
    | newOrder c => rfl
    | cancelOrder c => rfl
    | modifyOrder c =>
        rw [incomingOrder, Option.map_eq_none_iff] at hincoming
        rw [replaceOf, if_neg]
        rintro ⟨rfl, hfound⟩
        simp [hincoming] at hfound
  rcases processCommand_cases hinv hcmd clock with
    ⟨hincoming, _, _, _, _, heq⟩ | ⟨c, order, rfl, _, _, heq⟩ | ⟨order, hincoming, heq⟩
  · obtain rfl := Option.some.inj (heq.symm.trans h)
    rw [hnone hincoming, List.append_nil, reportedReplaces, orderReports_publishRejection]
    rfl
  · obtain rfl := Option.some.inj (heq.symm.trans h)
    have hreports : (((s.cancelled clock c.orderId).publish
        (.execution order "CANCELED")).retire c.orderId).orderReports id = _ :=
      (readsReports_orderReports id).cancelled
    rw [reportedReplaces, hreports, List.filter_append, List.map_append]
    refine congrArg (s.reportedReplaces id ++ ·) ?_
    split_ifs <;> simp [replaceOf]
  · obtain rfl := Option.some.inj (heq.symm.trans h)
    exact reportedReplaces_executed hinv hcmd hincoming clock id

/-- The reports of a run show its replaces. -/
theorem reportedReplaces_run {commands : List (Command P)} (hinv : s.Sound (newIds history))
    (hcommands : PartialRun.Follows (processCommand clock)
      (fun history _ cmd => Admissible (newIds history) cmd) history s commands)
    (h : processAll clock s commands = some s') (id : OrderID) :
    s'.reportedReplaces id = s.reportedReplaces id ++ replacesOf clock id s commands := by
  induction commands generalizing s history with
  | nil =>
      obtain rfl := Option.some.inj h
      exact (List.append_nil _).symm
  | cons cmd commands ih =>
      obtain ⟨t, ht, hrest⟩ := Option.bind_eq_some_iff.mp h
      obtain ⟨t', ht', hsound⟩ := processCommand_sound hinv hcommands.1 clock
      obtain rfl := Option.some.inj (ht'.symm.trans ht)
      rw [← newIds_concat] at hsound
      rw [ih hsound (hcommands.2 t' ht) hrest, reportedReplaces_step hinv hcommands.1 ht,
        List.append_assoc, replacesOf, ht]

omit [PriceArith P] [StreamPrice P] in
theorem Trail.same_client (htrail : s.Trail history id) {report report' : ExecutionReport P}
    (h : report ∈ s.orderReports id) (h' : report' ∈ s.orderReports id) :
    report.clientOrderId = report'.clientOrderId := by
  obtain ⟨cmd, hcmd, hid⟩ := List.mem_flatMap.mp (htrail.entered report h)
  cases cmd with
  | newOrder c =>
      obtain ⟨hclient, _⟩ := htrail.client c hcmd (List.mem_singleton.mp hid).symm
      exact (hclient report h).trans (hclient report' h').symm
  | cancelOrder c => cases hid
  | modifyOrder c => cases hid

omit [PriceArith P] in
theorem Trail.key_eq_iff (htrail : s.Trail history id) {report report' : ExecutionReport P}
    (h : report ∈ s.orderReports id) (h' : report' ∈ s.orderReports id) :
    BlotterModel.executionKey report = BlotterModel.executionKey report' ↔
      report.executionId = report'.executionId ∧
        BlotterModel.keyParts report = BlotterModel.keyParts report' := by
  obtain ⟨hid, htext⟩ := (htrail.issued report h).bar_notMem
  obtain ⟨hid', htext'⟩ := (htrail.issued report' h').bar_notMem
  exact BlotterModel.executionKey_eq_iff hid hid' htext htext' (htrail.same_client h h')

omit [PriceArith P] in
/-- Keys confuse replaces only, and those that say the same. -/
theorem Trail.nodup_keys_iff (htrail : s.Trail history id) :
    ((s.orderReports id).map BlotterModel.executionKey).Nodup ↔
      (s.reportedReplaces id).Nodup := by
  have hperm := List.filter_append_perm (fun report => report.text = "REPLACED")
    (s.orderReports id)
  rw [← (hperm.map BlotterModel.executionKey).nodup_iff, List.map_append, List.nodup_append]
  have hothers : (((s.orderReports id).filter fun report =>
      !decide (report.text = "REPLACED")).map BlotterModel.executionKey).Nodup := by
    have honce := htrail.once
    simp only [ne_eq, decide_not] at honce
    rw [List.Nodup, List.pairwise_map] at honce ⊢
    apply honce.imp_of_mem
    intro report report' hreport hreport' hstamp hkey
    obtain ⟨hid, hparts⟩ := (htrail.key_eq_iff (List.mem_filter.mp hreport).1
      (List.mem_filter.mp hreport').1).mp hkey
    exact hstamp (Prod.ext hid (BlotterModel.keyParts_eq_iff.mp hparts).2.2.2.2.2)
  have hreplaces : (((s.orderReports id).filter fun report =>
      decide (report.text = "REPLACED")).map BlotterModel.executionKey).Nodup ↔
        (s.reportedReplaces id).Nodup := by
    rw [reportedReplaces, List.Nodup, List.Nodup, List.pairwise_map, List.pairwise_map]
    apply List.Pairwise.iff_of_mem
    intro report report' hreport hreport'
    obtain ⟨hreport, htext⟩ := List.mem_filter.mp hreport
    obtain ⟨hreport', htext'⟩ := List.mem_filter.mp hreport'
    obtain ⟨hid, hstatus, hcumulative, hquantity⟩ :=
      (htrail.issued report hreport).of_replaced (of_decide_eq_true htext)
    obtain ⟨hid', hstatus', hcumulative', hquantity'⟩ :=
      (htrail.issued report' hreport').of_replaced (of_decide_eq_true htext')
    apply not_congr
    rw [htrail.key_eq_iff hreport hreport', BlotterModel.keyParts_eq_iff, hid, hid', hstatus,
      hstatus', hcumulative, hcumulative', hquantity, hquantity', of_decide_eq_true htext,
      of_decide_eq_true htext', Prod.mk.injEq]
    simp [and_comm]
  rw [hreplaces]
  constructor
  · exact fun h => h.1
  · refine fun h => ⟨h, hothers, ?_⟩
    rintro _ hreplaced _ hother heq
    obtain ⟨report, hreport, rfl⟩ := List.mem_map.mp hreplaced
    obtain ⟨report', hreport', rfl⟩ := List.mem_map.mp hother
    obtain ⟨hreport, htext⟩ := List.mem_filter.mp hreport
    obtain ⟨hreport', htext'⟩ := List.mem_filter.mp hreport'
    obtain ⟨_, hparts⟩ := (htrail.key_eq_iff hreport hreport').mp heq
    rw [(BlotterModel.keyParts_eq_iff.mp hparts).2.2.2.2.2] at htext
    simp [of_decide_eq_true htext] at htext'

/-- The blotter follows the reports about an order exactly when no two of its replaces
have the same quantity and prices that are printed alike. -/
theorem blotter_follows_iff [DecidableEq P] {commands : List (Command P)} (h : Valid commands)
    (clock : Clock) (symbol : Instrument) (currentId : TradeID) :
    ∃ s, processAll clock (init symbol currentId) commands = some s ∧
      ∀ id, BlotterModel.Follows (s.orderReports id) ↔
        (replacesOf clock id (init symbol currentId) commands).Nodup := by
  obtain ⟨s, hs, _, htrails⟩ := processAll_sound_induction
    (fun history s => ∀ id, s.Trail history id) (trail_init symbol currentId)
    (fun history s cmd s' hinv hcmd htrails hs' id => trail_step (htrails id) hinv hcmd hs') h
  refine ⟨s, hs, fun id => ?_⟩
  have hinit : (init symbol currentId : Partition P).Sound
      (newIds ([] : List (Command P))) := sound_init symbol currentId
  have hreplaces := reportedReplaces_run hinit (h.follows clock _) hs id
  rw [BlotterModel.follows_iff fun report hreport =>
      ((htrails id).issued report hreport).executionId_ne,
    (htrails id).nodup_keys_iff, hreplaces]
  rfl

end Replaces

namespace Sample

/-- An order that is replaced back and forth. -/
def backAndForth : List (Command ℚ) :=
  [submit 1 "S1" .sell .limit 3 10, modify 1 11 3, modify 1 10 3, modify 1 11 3]

end Sample

theorem blotter_follows_iff_sample :
    ∃ s, processAll (fun _ => 0) (init .eurusd 0) Sample.commands = some s ∧
      ∀ id, BlotterModel.Follows (s.orderReports id) ↔
        (replacesOf (fun _ => 0) id (init .eurusd 0) Sample.commands).Nodup :=
  blotter_follows_iff Sample.valid_commands (fun _ => 0) .eurusd 0

/-- The last of the four reports is taken for the second one. -/
theorem replace_taken_for_duplicate :
    Valid Sample.backAndForth ∧
      ∃ s, processAll (fun _ => 0) (init .eurusd 0) Sample.backAndForth = some s ∧
        ¬BlotterModel.Follows (s.orderReports 1) := by
  refine ⟨by decide, ?_⟩
  have hrun : (processAll (fun _ => 0) (init .eurusd 0) Sample.backAndForth).map
      (fun s => ((BlotterModel.feed (s.orderReports 1)).history.length,
        (s.orderReports 1).map ExecutionReport.text)) =
      some (3, ["NEW", "REPLACED", "REPLACED", "REPLACED"]) := by
    decide +kernel
  obtain ⟨s, hs, hlengths⟩ := Option.map_eq_some_iff.mp hrun
  obtain ⟨hhistory, htexts⟩ := Prod.mk.inj hlengths
  refine ⟨s, hs, fun hfollows => ?_⟩
  have hlength := congrArg List.length htexts
  rw [List.length_map] at hlength
  obtain ⟨before, last, hreports⟩ :=
    (List.eq_nil_or_concat' (s.orderReports 1)).resolve_left fun hnil => by simp [hnil] at hlength
  have hall := (hfollows before last [] hreports).1
  rw [← hreports] at hall
  rw [hall, List.length_map, hlength] at hhistory
  simp at hhistory

end Partition

end BetaTrader
