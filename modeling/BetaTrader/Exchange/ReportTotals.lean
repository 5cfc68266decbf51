import BetaTrader.Exchange.Reports

/-!
# Running totals of reports

The cumulative quantity of a report should be what the trade reports of its
order add up to, from the order's latest admission up to the report.  Reports
are made after the match from the final contents of the orders, so this is true
of a match with one trade only.
-/

namespace BetaTrader

open ExecutionPublisher

variable {P : Type}

/-- What is counted after a report: admissions start anew, trades add up. -/
def tally (n : ℕ) (report : ExecutionReport P) : ℕ :=
  if report.text = "NEW" ∨ report.text = "REPLACED" then 0
  else if report.text = "TRADE" then n + report.lastQuantity.toNat
  else n

/-- The report tells that `n` of the order is traded and the rest open. -/
structure ExecutionReport.Tells (report : ExecutionReport P) (n : ℕ) : Prop where
  cumulative : report.cumulativeQuantity.toNat = n
  leaves : report.cumulativeQuantity.toNat + report.leavesQuantity.toNat =
    report.orderQuantity.toNat

/-- Every report tells what has been counted up to it. -/
def AddsUpFrom : ℕ → List (ExecutionReport P) → Prop
  | _, [] => True
  | n, report :: reports => report.Tells (tally n report) ∧ AddsUpFrom (tally n report) reports

instance (report : ExecutionReport P) (n : ℕ) : Decidable (report.Tells n) :=
  decidable_of_iff (report.cumulativeQuantity.toNat = n ∧
      report.cumulativeQuantity.toNat + report.leavesQuantity.toNat = report.orderQuantity.toNat)
    ⟨fun h => ⟨h.1, h.2⟩, fun h => ⟨h.cumulative, h.leaves⟩⟩

instance decidableAddsUpFrom :
    (n : ℕ) → (reports : List (ExecutionReport P)) → Decidable (AddsUpFrom n reports)
  | _, [] => inferInstanceAs (Decidable True)
  | n, report :: reports =>
      @instDecidableAnd _ _ _ (decidableAddsUpFrom (tally n report) reports)

theorem addsUpFrom_append {n : ℕ} {xs ys : List (ExecutionReport P)} :
    AddsUpFrom n (xs ++ ys) ↔ AddsUpFrom n xs ∧ AddsUpFrom (xs.foldl tally n) ys := by
  induction xs generalizing n with
  | nil => simp [AddsUpFrom]
  | cons x xs ih => simp only [List.cons_append, AddsUpFrom, ih, List.foldl_cons, and_assoc]

/-- A report of an order of which `n` is traded. -/
theorem toNat_sub_of_traded {order : Order P} {n : ℕ}
    (h : n + order.openQuantity = order.originalQuantity.toNat) :
    (order.originalQuantity - order.remainingQuantity).toNat = n := by
  have hle : order.remainingQuantity ≤ order.originalQuantity := by
    rw [UInt64.le_iff_toNat_le]
    change order.openQuantity ≤ _
    omega
  rw [UInt64.toNat_sub_of_le _ _ hle]
  change _ - order.openQuantity = n
  omega

theorem tells_publishExecution {order : Order P} {n : ℕ}
    (h : n + order.openQuantity = order.originalQuantity.toNat) (action : String) :
    (publishExecution order action).Tells n :=
  have hn := toNat_sub_of_traded h
  ⟨hn, (congrArg (· + order.openQuantity) hn).trans h⟩

theorem tells_tradeReport {order : Order P} {n : ℕ}
    (h : n + order.openQuantity = order.originalQuantity.toNat) (trade : Trade P)
    (suffix : String) : (tradeReport trade order suffix).Tells n :=
  have hn := toNat_sub_of_traded h
  ⟨hn, (congrArg (· + order.openQuantity) hn).trans h⟩

@[simp] theorem tally_admissionReport (n : ℕ) (order : Order P) (cmd : Command P) :
    tally n (admissionReport order cmd) = 0 := by
  cases cmd <;> simp [tally, admissionReport, publishExecution]

@[simp] theorem tally_canceled (n : ℕ) (order : Order P) :
    tally n (publishExecution order "CANCELED") = n := by
  simp [tally, publishExecution]

@[simp] theorem tally_tradeReport (n : ℕ) (trade : Trade P) (order : Order P)
    (suffix : String) : tally n (tradeReport trade order suffix) = n + trade.quantity.toNat := by
  simp [tally, tradeReport]

theorem tells_admissionReport {order : Order P} (h : order.IsNew) (cmd : Command P) :
    (admissionReport order cmd).Tells 0 := by
  have hopen : 0 + order.openQuantity = order.originalQuantity.toNat := by
    rw [← h.1, Nat.zero_add]
    rfl
  cases cmd <;> exact tells_publishExecution hopen _

namespace Partition

open Matcher

/-- What the reports about the order `id` have counted. -/
def counted (s : Partition P) (id : OrderID) : ℕ := (s.orderReports id).foldl tally 0

/-- The reports about every order add up. -/
def AddsUp (s : Partition P) : Prop := ∀ id, AddsUpFrom 0 (s.orderReports id)

/-- Of every registered order, what is not open has been counted. -/
def Counts (s : Partition P) : Prop := ∀ id order, s.orderManager.orderMap id = some order →
  s.counted id + order.openQuantity = order.originalQuantity.toNat

theorem bookedFills_of_length_le_one {served : Order P} {fs : List (Order P × ℕ)}
    (h : fs.length ≤ 1) : bookedFills served fs = fs := by
  rw [bookedFills]
  split_ifs
  · exact List.take_of_length_le h
  · rfl

section Steps

variable [FinitePrice P] {ids : List OrderID} {s s' : Partition P} {order : Order P}
  {cmd : Command P} {clock : Clock}

/-- The first trade of a match shows the first fill. -/
theorem exists_first_trade (hinv : s.Invariant ids) (hcmd : Admissible ids cmd)
    (h : s.incomingOrder cmd = some order) (clock : Clock) {f : Order P × ℕ}
    {fs : List (Order P × ℕ)} (hfills : s.fills order = f :: fs) :
    ∃ trade trades, (s.prepared clock order cmd).trades clock order = trade :: trades ∧
      trade.quantity.toNat = f.2 := by
  have hf : f ∈ s.fills order := hfills ▸ List.mem_cons_self
  have hle := (mem_fills hinv.sound hcmd h hf).2.2.2
  rw [prepared_trades hinv.sound hcmd h, hfills, tradesOf]
  exact ⟨_, _, rfl, Nat.mod_eq_of_lt (hle.trans_lt (Order.openQuantity_lt f.1))⟩

/-- The reports about the incoming order add up exactly when it has one fill at most. -/
theorem addsUp_incoming (hinv : s.Invariant ids) (hcmd : Admissible ids cmd)
    (h : s.incomingOrder cmd = some order) (clock : Clock) :
    AddsUpFrom 0 ((s.executed clock order cmd).orderReports order.coreOrderId) ↔
      AddsUpFrom 0 (s.orderReports order.coreOrderId) ∧ (s.fills order).length ≤ 1 := by
  have hreports : (s.executed clock order cmd).orderReports order.coreOrderId = _ :=
    (readsReports_orderReports _).executed_incoming hinv.sound hcmd h clock
  have hadmission := tells_admissionReport (incomingOrder_quantity h) cmd
  have hsum := sum_fills_served h
  rw [hreports, addsUpFrom_append]
  refine and_congr_right fun _ => ?_
  simp only [AddsUpFrom, tally_admissionReport, hadmission, true_and]
  cases hfills : s.fills order with
  | nil => simp [bookedFills, AddsUpFrom]
  | cons f fs =>
      obtain ⟨trade, trades, htrades, hquantity⟩ := exists_first_trade hinv hcmd h clock hfills
      rw [hfills, List.map_cons, List.sum_cons] at hsum
      cases fs with
      | nil =>
          rw [bookedFills_of_length_le_one (by simp), htrades]
          simp only [List.zip_cons_cons, List.zip_nil_left, List.map_cons, List.map_nil,
            AddsUpFrom, tally_tradeReport, and_true]
          refine iff_of_true (tells_tradeReport ?_ trade _) (by simp)
          simpa [hquantity] using hsum
      | cons g fs =>
          have hg : g ∈ s.fills order := by simp [hfills]
          have hpos := (mem_fills hinv.sound hcmd h hg).2.2.1
          obtain ⟨rest, hrest⟩ :
              ∃ rest, bookedFills (s.served order) (f :: g :: fs) = f :: rest := by
            rw [bookedFills]
            split_ifs
            · exact ⟨[], rfl⟩
            · exact ⟨g :: fs, rfl⟩
          rw [hrest, htrades]
          refine iff_of_false ?_ (by simp)
          simp only [List.zip_cons_cons, List.map_cons, AddsUpFrom, tally_tradeReport]
          rintro ⟨htells, _⟩
          have hcumulative := (tells_tradeReport hsum trade
            (s.served order).side.suffix).cumulative.symm.trans htells.cumulative
          rw [List.map_cons, List.sum_cons] at hcumulative
          omega

/-- What the reports about the incoming order count if it has one fill at most. -/
theorem counted_incoming (hinv : s.Invariant ids) (hcmd : Admissible ids cmd)
    (h : s.incomingOrder cmd = some order) (clock : Clock) (hone : (s.fills order).length ≤ 1) :
    (s.executed clock order cmd).counted order.coreOrderId =
      ((s.fills order).map Prod.snd).sum := by
  have hreports : (s.executed clock order cmd).orderReports order.coreOrderId = _ :=
    (readsReports_orderReports _).executed_incoming hinv.sound hcmd h clock
  rw [counted, hreports, bookedFills_of_length_le_one hone, List.foldl_append, List.foldl_cons,
    tally_admissionReport]
  cases hfills : s.fills order with
  | nil => rfl
  | cons f fs =>
      obtain ⟨trade, trades, htrades, hquantity⟩ := exists_first_trade hinv hcmd h clock hfills
      rw [hfills, List.length_cons] at hone
      obtain rfl : fs = [] := List.eq_nil_of_length_eq_zero (by omega)
      simp [htrades, hquantity]

/-- The reports about another order: none if it has no fill, else one of its fill. -/
theorem orderReports_other (hinv : s.Invariant ids) (hcmd : Admissible ids cmd)
    (h : s.incomingOrder cmd = some order) (clock : Clock) (hone : (s.fills order).length ≤ 1)
    {id : OrderID} (hid : id ≠ order.coreOrderId) :
    ((s.executed clock order cmd).orderReports id = s.orderReports id ∧
      (s.executed clock order cmd).orderManager.orderMap id = s.orderManager.orderMap id) ∨
    ∃ (f : Order P × ℕ) (trade : Trade P) (suffix : String),
      s.orderManager.orderMap id = some f.1 ∧ f.2 ≤ f.1.openQuantity ∧
      trade.quantity.toNat = f.2 ∧
      (s.executed clock order cmd).orderReports id =
        s.orderReports id ++ [tradeReport trade (f.1.giveFill f.2) suffix] ∧
      ∀ order', (s.executed clock order cmd).orderManager.orderMap id = some order' →
        order' = f.1.giveFill f.2 := by
  have hbooked : bookedFills (s.served order) (s.fills order) = s.fills order :=
    bookedFills_of_length_le_one hone
  rcases executed_other hinv.sound hcmd h clock hid with
    ⟨huntouched, hsame⟩ | ⟨f, hf, rfl, hold, hcases⟩
  · refine Or.inl ⟨?_, hsame⟩
    exact (readsReports_orderReports id).executed_untouched hinv.sound hcmd h clock hid.symm
      (hbooked.symm ▸ huntouched)
  · obtain ⟨trade, suffix, hquantity, hreports⟩ :=
      (readsReports_orderReports _).executed_touched hinv.sound hcmd h clock (hbooked.symm ▸ hf)
    refine Or.inr ⟨f, trade, suffix, hold, (mem_fills hinv.sound hcmd h hf).2.2.2, hquantity,
      hreports, fun order' horder' => ?_⟩
    rcases hcases with ⟨_, _, hnone⟩ | ⟨_, hnew⟩
    · simp [hnone] at horder'
    · exact Option.some.inj (horder'.symm.trans hnew)

omit [FinitePrice P] in
theorem counted_fill {f : Order P × ℕ} {n : ℕ} (hle : f.2 ≤ f.1.openQuantity)
    (h : n + f.1.openQuantity = f.1.originalQuantity.toNat) :
    n + f.2 + (f.1.giveFill f.2).openQuantity = (f.1.giveFill f.2).originalQuantity.toNat := by
  have hopen := Order.openQuantity_giveFill hle
  change _ = f.1.originalQuantity.toNat
  omega

theorem counts_executed (hinv : s.Invariant ids) (hcmd : Admissible ids cmd)
    (h : s.incomingOrder cmd = some order) (clock : Clock) (hone : (s.fills order).length ≤ 1)
    (hcounts : s.Counts) : (s.executed clock order cmd).Counts := by
  intro id order' horder'
  by_cases hid : id = order.coreOrderId
  · subst hid
    rw [executed_incoming hinv.sound hcmd h clock] at horder'
    split_ifs at horder'
    rw [counted_incoming hinv hcmd h clock hone, ← Option.some.inj horder']
    exact sum_fills_served h
  · rcases orderReports_other hinv hcmd h clock hone hid with
      ⟨hreports, hsame⟩ | ⟨f, trade, suffix, hold, hle, hquantity, hreports, hnew⟩
    · rw [counted, hreports]
      exact hcounts id order' (hsame ▸ horder')
    · rw [counted, hreports, List.foldl_append, hnew order' horder']
      simp only [List.foldl_cons, List.foldl_nil, tally_tradeReport, hquantity]
      exact counted_fill hle (hcounts id f.1 hold)

theorem addsUp_executed (hinv : s.Invariant ids) (hcmd : Admissible ids cmd)
    (h : s.incomingOrder cmd = some order) (clock : Clock) (hcounts : s.AddsUp → s.Counts) :
    (s.executed clock order cmd).AddsUp ↔ s.AddsUp ∧ (s.fills order).length ≤ 1 := by
  have hincoming := addsUp_incoming hinv hcmd h clock
  -- the match is not to be evaluated
  generalize hexecuted : s.executed clock order cmd = s' at hincoming ⊢
  constructor
  · intro hadds
    refine ⟨fun id => ?_, (hincoming.mp (hadds _)).2⟩
    have hreports : (s.executed clock order cmd).orderReports id = _ :=
      (readsReports_orderReports id).executed hinv.sound hcmd h clock
    rw [hexecuted] at hreports
    exact (addsUpFrom_append.mp (hreports ▸ hadds id)).1
  · rintro ⟨hadds, hone⟩ id
    by_cases hid : id = order.coreOrderId
    · subst hid
      exact hincoming.mpr ⟨hadds _, hone⟩
    · have hother := orderReports_other hinv hcmd h clock hone hid
      rw [hexecuted] at hother
      rcases hother with
        ⟨hreports, _⟩ | ⟨f, trade, suffix, hold, hle, hquantity, hreports, _⟩
      · rw [hreports]
        exact hadds id
      · rw [hreports, addsUpFrom_append]
        refine ⟨hadds id, ?_, trivial⟩
        rw [tally_tradeReport, hquantity]
        exact tells_tradeReport (counted_fill hle (hcounts hadds id f.1 hold)) trade suffix

/-- The incoming order reaches one order at most, or the first one can serve it alone. -/
def FillsAtMostOnce (s : Partition P) (cmd : Command P) : Prop :=
  ∀ order ∈ s.incomingOrder cmd, (s.crossing order).length ≤ 1 ∨
    ∀ first ∈ (s.crossing order).head?, order.openQuantity ≤ first.openQuantity

theorem fillsAtMostOnce_iff (h : s.incomingOrder cmd = some order) :
    s.FillsAtMostOnce cmd ↔ (s.fills order).length ≤ 1 := by
  have hfills : (s.fills order).length ≤ 1 ↔ _ := Allocation.length_fills_le_one_iff
  rw [hfills]
  simp [FillsAtMostOnce, h, crossing]

omit [FinitePrice P] in
/-- A cancelled order is reported with what has been counted of it. -/
theorem addsUp_cancelled (clock : Clock) {id : OrderID} (hid : order.coreOrderId = id)
    (horder : s.orderManager.orderMap id = some order) (hcounts : s.AddsUp → s.Counts) :
    let s' := ((s.cancelled clock id).publish (.execution order "CANCELED")).retire id
    (s'.AddsUp → s'.Counts) ∧ (s'.AddsUp ↔ s.AddsUp) := by
  intro s'
  have hreports : ∀ id', s'.orderReports id' = _ :=
    fun id' => (readsReports_orderReports id').cancelled
  have hadds : s'.AddsUp ↔ s.AddsUp := by
    refine ⟨fun hadds id' => (addsUpFrom_append.mp (hreports id' ▸ hadds id')).1,
      fun hadds id' => ?_⟩
    rw [hreports, addsUpFrom_append]
    refine ⟨hadds id', ?_⟩
    split_ifs with hid'
    · refine ⟨?_, trivial⟩
      rw [tally_canceled]
      exact tells_publishExecution (hcounts hadds id' order (hid' ▸ hid ▸ horder)) _
    · trivial
  refine ⟨fun hadds' id' order' horder' => ?_, hadds⟩
  obtain ⟨hne, hold⟩ := OrderManager.orderMap_of_removeOrderById horder'
  have hsame := hreports id'
  rw [if_neg (hid ▸ hne.symm), List.append_nil] at hsame
  rw [counted, hsame]
  exact hcounts (hadds.mp hadds') id' order' hold

/-- The reports keep adding up exactly when a command makes one trade at most. -/
theorem addsUp_step (hinv : s.Invariant ids) (hcmd : Admissible ids cmd)
    (hcounts : s.AddsUp → s.Counts) (h : processCommand clock s cmd = some s') :
    (s'.AddsUp → s'.Counts) ∧ (s'.AddsUp ↔ s.AddsUp ∧ s.FillsAtMostOnce cmd) := by
  rcases processCommand_cases hinv.sound hcmd clock with
    ⟨hincoming, _, _, _, _, heq⟩ | ⟨c, order, rfl, horder, _, heq⟩ | ⟨order, hincoming, heq⟩
  · obtain rfl := Option.some.inj (heq.symm.trans h)
    have hfills : s.FillsAtMostOnce cmd := by simp [FillsAtMostOnce, hincoming]
    simp only [AddsUp, Counts, counted, orderReports_publishRejection]
    exact ⟨hcounts, (and_iff_left hfills).symm⟩
  · obtain rfl := Option.some.inj (heq.symm.trans h)
    have hfills : s.FillsAtMostOnce (.cancelOrder c) := by simp [FillsAtMostOnce, incomingOrder]
    obtain ⟨hcounts', hadds⟩ :=
      addsUp_cancelled clock (hinv.managed _ order horder).1 horder hcounts
    exact ⟨hcounts', hadds.trans (and_iff_left hfills).symm⟩
  · obtain rfl := Option.some.inj (heq.symm.trans h)
    have hexact := addsUp_executed hinv hcmd hincoming clock hcounts
    rw [fillsAtMostOnce_iff hincoming]
    refine ⟨fun hadds => ?_, hexact⟩
    obtain ⟨hold, hone⟩ := hexact.mp hadds
    exact counts_executed hinv hcmd hincoming clock hone (hcounts hold)

end Steps

/-- The reports of a run add up exactly when every command makes one trade at most. -/
theorem reports_addUp_iff [FinitePrice P] {commands : List (Command P)} (h : Valid commands)
    (clock : Clock) (symbol : Instrument) (currentId : TradeID) :
    ∃ s, processAll clock (init symbol currentId) commands = some s ∧
      (s.AddsUp ↔ Meets clock FillsAtMostOnce (init symbol currentId) commands) := by
  obtain ⟨s, hs, _, hexact⟩ := processAll_exact clock (fun _ s => s.AddsUp → s.Counts) AddsUp
    FillsAtMostOnce (fun _ id order horder => by simp [init] at horder) (fun _ => trivial)
    (fun _ s cmd s' hinv hcmd hcounts hs' => addsUp_step hinv hcmd hcounts hs') h
  exact ⟨s, hs, hexact⟩

theorem reports_addUp_iff_sample :
    ∃ s, processAll (fun _ => 0) (init .eurusd 0) Sample.commands = some s ∧
      (s.AddsUp ↔ Meets (fun _ => 0) FillsAtMostOnce (init .eurusd 0) Sample.commands) :=
  reports_addUp_iff Sample.valid_commands (fun _ => 0) .eurusd 0

namespace Sample

/-- A buy that takes all of two sells and stays open. -/
def twoTrades : List (Command ℚ) :=
  [submit 1 "S1" .sell .limit 3 10, submit 2 "S2" .sell .limit 4 10,
    submit 3 "B1" .buy .limit 9 10]

end Sample

/-- The first trade report of the buy counts both trades. -/
theorem first_report_counts_both :
    Valid Sample.twoTrades ∧
      ∃ s, processAll (fun _ => 0) (init .eurusd 0) Sample.twoTrades = some s ∧ ¬s.AddsUp := by
  refine ⟨by decide, ?_⟩
  have hrun : (processAll (fun _ => 0) (init .eurusd 0) Sample.twoTrades).map
      (fun s => decide (AddsUpFrom 0 (s.orderReports 3))) = some false := by
    decide +kernel
  obtain ⟨s, hs, hreports⟩ := Option.map_eq_some_iff.mp hrun
  exact ⟨s, hs, fun hadds => of_decide_eq_false hreports (hadds 3)⟩

end Partition

end BetaTrader
