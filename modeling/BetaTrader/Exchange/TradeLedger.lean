import BetaTrader.Exchange.Journal
import BetaTrader.Exchange.PartitionInvariant

/-!
# Where trades go

A trade that `Matcher::match` returns should be published to its two
counterparties and stored.  The projections below read the three lists off the
journal; both duties turn out to depend on the command that made the trade.
-/

namespace BetaTrader

variable {P : Type}

namespace Event

/-- The trades returned by a match. -/
def matchedTrades : Event P → List (Trade P)
  | .matched trades => trades
  | _ => []

/-- The trades handed to `TradeRepository::addTrade`. -/
def storedTrades : Event P → List (Trade P)
  | .enqueued (.addTrade trade) => [trade]
  | _ => []

/-- The calls of `ExecutionPublisher::publishTrade`. -/
def tradeCalls : Event P → List (Trade P × Order P × Order P)
  | .published (.trade trade buyOrder sellOrder) => [(trade, buyOrder, sellOrder)]
  | _ => []

end Event

namespace Partition

open Matcher

def matchedTrades (s : Partition P) : List (Trade P) := s.journal.flatMap Event.matchedTrades

def storedTrades (s : Partition P) : List (Trade P) := s.journal.flatMap Event.storedTrades

def tradeCalls (s : Partition P) : List (Trade P × Order P × Order P) :=
  s.journal.flatMap Event.tradeCalls

theorem ignoresAdmission_matchedTrades : IgnoresAdmission (Event.matchedTrades (P := P)) :=
  ⟨fun _ => rfl, fun _ => rfl, fun _ => rfl, fun _ => rfl, fun _ => rfl⟩

theorem ignoresAdmission_storedTrades : IgnoresAdmission (Event.storedTrades (P := P)) :=
  ⟨fun _ => rfl, fun _ => rfl, fun _ => rfl, fun _ => rfl, fun _ => rfl⟩

theorem ignoresAdmission_tradeCalls : IgnoresAdmission (Event.tradeCalls (P := P)) :=
  ⟨fun _ => rfl, fun _ => rfl, fun _ => rfl, fun _ => rfl, fun _ => rfl⟩

/-! ## The booking loop -/

section Loop

theorem bookingEvents_matchedTrades (cmd : Command P) (served : Order P)
    (fs : List (Order P × ℕ)) (trades : List (Trade P)) :
    (bookingEvents (postEvents cmd) served fs trades).flatMap Event.matchedTrades = [] := by
  have hpost : ∀ trade, (postEvents cmd trade).flatMap Event.matchedTrades = [] := by
    cases cmd <;> exact fun _ => rfl
  have hfill : ∀ f trade, (fillEvents served f trade).flatMap Event.matchedTrades = [] := by
    intro f trade
    simp [fillEvents, bookedEvents, Event.matchedTrades, List.flatMap_map]
  exact flatMap_bookingEvents_eq_nil trades hpost hfill

/-- The calls of `publishTrade` that the booking loop makes. -/
theorem bookingEvents_tradeCalls (cmd : Command P) (served : Order P)
    (fs : List (Order P × ℕ)) (trades : List (Trade P)) :
    (bookingEvents (postEvents cmd) served fs trades).flatMap Event.tradeCalls =
      ((bookedFills served fs).zip trades).map fun p =>
        (p.2, buyer served (p.1.1.giveFill p.1.2), seller served (p.1.1.giveFill p.1.2)) := by
  have hpost : ∀ trade, (postEvents cmd trade).flatMap Event.tradeCalls = [] := by
    cases cmd <;> exact fun _ => rfl
  have hfill : ∀ f trade, (fillEvents served f trade).flatMap Event.tradeCalls =
      [(trade, buyer served (f.1.giveFill f.2), seller served (f.1.giveFill f.2))] := by
    intro f trade
    simp [fillEvents, bookedEvents, Event.tradeCalls, List.flatMap_map]
  rw [flatMap_bookingEvents]
  simp [hpost, hfill, List.map_eq_flatMap]

/-- The new-order handler stores every trade, the modify handler none. -/
def storedBy (cmd : Command P) (trades : List (Trade P)) : List (Trade P) :=
  match cmd with
  | .newOrder _ => trades
  | _ => []

theorem bookingEvents_storedTrades (cmd : Command P) (served : Order P)
    (fs : List (Order P × ℕ)) (trades : List (Trade P)) :
    (bookingEvents (postEvents cmd) served fs trades).flatMap Event.storedTrades =
      storedBy cmd trades := by
  have hfill : ∀ f trade, (fillEvents served f trade).flatMap Event.storedTrades = [] := by
    intro f trade
    simp [fillEvents, bookedEvents, Event.storedTrades, List.flatMap_map]
  -- booked or passed over, every trade is preceded by the call
  have hevery : (bookingEvents (postEvents cmd) served fs trades).flatMap Event.storedTrades =
      trades.flatMap fun trade => (postEvents cmd trade).flatMap Event.storedTrades := by
    rw [flatMap_bookingEvents]
    conv_rhs =>
      rw [← List.take_append_drop (bookedFills served fs).length trades, ← Lists.zip_map_snd]
    simp [hfill, List.flatMap_map]
  rw [hevery]
  cases cmd with
  | newOrder c => simp [postEvents, storedBy, Event.storedTrades]
  | cancelOrder c => exact List.flatMap_eq_nil_iff.mpr fun _ _ => rfl
  | modifyOrder c => exact List.flatMap_eq_nil_iff.mpr fun _ _ => rfl

end Loop

/-! ## One command -/

section Step

variable [PriceArith P] {ids : List OrderID} {s s' : Partition P} {order : Order P}
  {cmd : Command P} {clock : Clock}

/-- The calls of `publishTrade` about the trades of `order`. -/
def callsFor (s : Partition P) (order : Order P) (trades : List (Trade P)) :
    List (Trade P × Order P × Order P) :=
  ((bookedFills (s.served order) (s.fills order)).zip trades).map fun p =>
    (p.2, buyer (s.served order) (p.1.1.giveFill p.1.2),
      seller (s.served order) (p.1.1.giveFill p.1.2))

/-- A command that takes no order to the matcher leaves the trades alone; any
other adds those of its order. -/
theorem trades_step (hinv : s.Sound ids) (hcmd : Admissible ids cmd)
    (h : processCommand clock s cmd = some s') :
    (s.incomingOrder cmd = none ∧ s'.currentId = s.currentId ∧
      s'.matchedTrades = s.matchedTrades ∧ s'.tradeCalls = s.tradeCalls ∧
      s'.storedTrades = s.storedTrades) ∨
    ∃ order, s.incomingOrder cmd = some order ∧
      ∃ trades tick, trades = tradesOf clock order (s.fills order) s.currentId tick ∧
        s'.currentId = s.currentId + (s.fills order).length ∧
        s'.matchedTrades = s.matchedTrades ++ trades ∧
        s'.tradeCalls = s.tradeCalls ++ s.callsFor order trades ∧
        s'.storedTrades = s.storedTrades ++ storedBy cmd trades := by
  rcases processCommand_cases hinv hcmd clock with
    ⟨hincoming, _, _, _, _, heq⟩ | ⟨c, _, rfl, _, _, heq⟩ | ⟨order, hincoming, heq⟩
  · obtain rfl := Option.some.inj (heq.symm.trans h)
    refine Or.inl ⟨hincoming, rfl, ?_, ?_, ?_⟩ <;>
      exact List.flatMap_append.trans (List.append_nil _)
  · obtain rfl := Option.some.inj (heq.symm.trans h)
    refine Or.inl ⟨rfl, rfl, ?_, ?_, ?_⟩
    · exact (ignoresAdmission_matchedTrades.cancelled _ _).trans (List.append_nil _)
    · exact (ignoresAdmission_tradeCalls.cancelled _ _).trans (List.append_nil _)
    · exact (ignoresAdmission_storedTrades.cancelled _ _).trans (List.append_nil _)
  · obtain rfl := Option.some.inj (heq.symm.trans h)
    refine Or.inr
      ⟨order, hincoming, _, _, prepared_trades hinv hcmd hincoming clock, ?_, ?_, ?_, ?_⟩
    · rw [executed, afterAll_currentId, prepared_fills hinv hcmd hincoming, prepared_currentId]
    · rw [matchedTrades, ignoresAdmission_matchedTrades.executed, bookingEvents_matchedTrades,
        List.append_nil]
      rfl
    · rw [tradeCalls, ignoresAdmission_tradeCalls.executed, bookingEvents_tradeCalls,
        prepared_fills hinv hcmd hincoming, prepared_served hinv hcmd hincoming]
      rfl
    · rw [storedTrades, ignoresAdmission_storedTrades.executed, bookingEvents_storedTrades]
      rfl

/-- The trades of a run carry increasing ids, and only they are published, to
their own parties. -/
structure TradesInvariant (s : Partition P) : Prop where
  increasing : (s.matchedTrades.map Trade.tradeId).Pairwise (· < ·)
  issued : ∀ trade ∈ s.matchedTrades, trade.tradeId ≤ s.currentId
  published : (s.tradeCalls.map Prod.fst).Sublist s.matchedTrades
  stored : s.storedTrades.Sublist s.matchedTrades
  parties : ∀ call ∈ s.tradeCalls, call.2.1.coreOrderId = call.1.buyOrderId ∧
    call.2.2.coreOrderId = call.1.sellOrderId

theorem callsFor_map_fst (trades : List (Trade P)) : (s.callsFor order trades).map Prod.fst =
    trades.take (bookedFills (s.served order) (s.fills order)).length := by
  rw [callsFor, List.map_map, ← Lists.zip_map_snd]
  rfl

theorem callsFor_parties {tick : ℕ} {currentId : TradeID} {call : Trade P × Order P × Order P}
    (hcall : call ∈ s.callsFor order (tradesOf clock order (s.fills order) currentId tick)) :
    call.2.1.coreOrderId = call.1.buyOrderId ∧ call.2.2.coreOrderId = call.1.sellOrderId := by
  obtain ⟨p, hp, rfl⟩ := List.mem_map.mp hcall
  obtain ⟨tradeId, tick', htrade⟩ :=
    mem_zip_tradesOf (Lists.mem_zip_of_prefix (bookedFills_prefix_self _ _) hp)
  obtain ⟨qty, status, hserved⟩ := s.served_set order
  dsimp only
  rw [htrade, hserved]
  by_cases hside : order.side = .buy <;> simp [buyer, seller, tradeOf, hside, Order.giveFill]

theorem tradesInvariant_step (hinv : s.Sound ids) (hcmd : Admissible ids cmd)
    (htrades : s.TradesInvariant) (h : processCommand clock s cmd = some s') :
    s'.TradesInvariant := by
  rcases trades_step hinv hcmd h with
    ⟨_, hid, hmatched, hcalls, hstored⟩ |
      ⟨order, _, trades, tick, htradesOf, hid, hmatched, hcalls, hstored⟩
  · constructor
    · rw [hmatched]
      exact htrades.increasing
    · rw [hmatched, hid]
      exact htrades.issued
    · rw [hmatched, hcalls]
      exact htrades.published
    · rw [hmatched, hstored]
      exact htrades.stored
    · rw [hcalls]
      exact htrades.parties
  · have hnew : ∀ trade ∈ trades, s.currentId < trade.tradeId ∧
        trade.tradeId ≤ s.currentId + (s.fills order).length := by
      intro trade htrade
      have hmem := List.mem_map_of_mem (f := Trade.tradeId) htrade
      rw [htradesOf, map_tradeId_tradesOf, List.mem_range'_1] at hmem
      exact ⟨hmem.1, Nat.le_of_lt_succ (hmem.2.trans_eq (Nat.add_right_comm _ _ _))⟩
    constructor
    · rw [hmatched, List.map_append, List.pairwise_append]
      refine ⟨htrades.increasing, ?_, ?_⟩
      · rw [htradesOf, map_tradeId_tradesOf]
        exact List.pairwise_lt_range'
      · intro id hold id' hid'
        obtain ⟨trade, htrade, rfl⟩ := List.mem_map.mp hold
        obtain ⟨trade', htrade', rfl⟩ := List.mem_map.mp hid'
        exact (htrades.issued trade htrade).trans_lt (hnew trade' htrade').1
    · rw [hmatched, hid]
      intro trade htrade
      rcases List.mem_append.mp htrade with htrade | htrade
      · exact (htrades.issued trade htrade).trans (Nat.le_add_right _ _)
      · exact (hnew trade htrade).2
    · rw [hmatched, hcalls, List.map_append, callsFor_map_fst]
      exact htrades.published.append (List.take_sublist _ _)
    · rw [hmatched, hstored]
      refine htrades.stored.append ?_
      cases cmd with
      | newOrder c => exact List.Sublist.refl trades
      | cancelOrder c => exact List.nil_sublist trades
      | modifyOrder c => exact List.nil_sublist trades
    · rw [hcalls]
      intro call hcall
      rcases List.mem_append.mp hcall with hcall | hcall
      · exact htrades.parties call hcall
      · rw [htradesOf] at hcall
        exact callsFor_parties hcall

omit [PriceArith P] in
theorem tradesInvariant_init (symbol : Instrument) (currentId : TradeID) :
    (init symbol currentId : Partition P).TradesInvariant := by
  constructor <;> simp [init, matchedTrades, tradeCalls, storedTrades]

end Step

/-! ## Publication -/

section Publication

variable [FinitePrice P] {ids : List OrderID} {s s' : Partition P} {order : Order P}
  {cmd : Command P} {clock : Clock}

/-- `publishTrade` has been called once for the trade, and its two reports tell
the counterparties the quantity and the price. -/
def ReportedOnce (s : Partition P) (trade : Trade P) : Prop :=
  ∃ buyOrder sellOrder,
    s.tradeCalls.filter (fun call => call.1 = trade) = [(trade, buyOrder, sellOrder)] ∧
    (Publication.trade trade buyOrder sellOrder).reports.map
        (fun report => (report.exchangeOrderId, report.text, report.lastQuantity,
          report.lastPrice)) =
      [(trade.buyOrderId, "TRADE", trade.quantity, trade.price),
        (trade.sellOrderId, "TRADE", trade.quantity, trade.price)]

omit [FinitePrice P] in
theorem TradesInvariant.nodup (h : s.TradesInvariant) : s.matchedTrades.Nodup :=
  List.Nodup.of_map Trade.tradeId (h.increasing.imp Nat.ne_of_lt)

/-- Every trade is reported once exactly when the calls list all trades. -/
theorem TradesInvariant.reportedOnce_iff (h : s.TradesInvariant) :
    (∀ trade ∈ s.matchedTrades, s.ReportedOnce trade) ↔
      s.tradeCalls.map Prod.fst = s.matchedTrades := by
  constructor
  · intro hreported
    refine h.published.eq_of_length_le (List.subperm_of_subset h.nodup ?_).length_le
    intro trade htrade
    obtain ⟨buyOrder, sellOrder, hfilter, _⟩ := hreported trade htrade
    have hmem : (trade, buyOrder, sellOrder) ∈ s.tradeCalls := by
      refine List.mem_of_mem_filter (p := fun call => call.1 = trade) ?_
      rw [hfilter]
      exact List.mem_singleton.mpr rfl
    exact List.mem_map_of_mem (f := Prod.fst) hmem
  · intro hall trade htrade
    rw [← hall] at htrade
    obtain ⟨call, hcall, rfl⟩ := List.mem_map.mp htrade
    obtain ⟨hbuy, hsell⟩ := h.parties call hcall
    refine ⟨call.2.1, call.2.2, Lists.filter_fst_eq (hall ▸ h.nodup) hcall, ?_⟩
    rw [← hbuy, ← hsell]
    rfl

/-- The incoming order stays open, or the first order it reaches can serve it
alone. -/
def BooksAll (s : Partition P) (cmd : Command P) : Prop :=
  ∀ order ∈ s.incomingOrder cmd,
    Allocation.total Order.openQuantity (s.crossing order) < order.openQuantity ∨
      ∀ first ∈ (s.crossing order).head?, order.openQuantity ≤ first.openQuantity

theorem booksAll_iff (h : s.incomingOrder cmd = some order) :
    s.BooksAll cmd ↔ bookedFills (s.served order) (s.fills order) = s.fills order := by
  have hlength : s.BooksAll cmd ↔
      (bookedFills (s.served order) (s.fills order)).length = (s.fills order).length := by
    rw [length_bookedFills]
    simp [BooksAll, h]
  exact hlength.trans ⟨(bookedFills_prefix_self _ _).eq_of_length, congrArg List.length⟩

/-- A command publishes all its trades exactly when it books them all. -/
theorem tradeCalls_step (hinv : s.Invariant ids) (hcmd : Admissible ids cmd)
    (htrades : s.TradesInvariant) (h : processCommand clock s cmd = some s') :
    s'.tradeCalls.map Prod.fst = s'.matchedTrades ↔
      s.tradeCalls.map Prod.fst = s.matchedTrades ∧ s.BooksAll cmd := by
  rcases trades_step hinv.sound hcmd h with
    ⟨hincoming, _, hmatched, hcalls, _⟩ |
      ⟨order, hincoming, trades, tick, htradesOf, _, hmatched, hcalls, _⟩
  · rw [hmatched, hcalls]
    simp [BooksAll, hincoming]
  · have hlength : trades.length = (s.fills order).length := by
      rw [htradesOf, length_tradesOf]
    have hbooked := bookedFills_prefix_self (s.served order) (s.fills order)
    have htake : trades.take (bookedFills (s.served order) (s.fills order)).length = trades ↔
        bookedFills (s.served order) (s.fills order) = s.fills order := by
      rw [List.take_eq_self_iff, hlength]
      exact ⟨hbooked.eq_of_length_le, fun heq => (congrArg List.length heq).ge⟩
    rw [hmatched, hcalls, List.map_append, callsFor_map_fst,
      Lists.append_eq_append_iff_of_sublist htrades.published (List.take_sublist _ _), htake,
      booksAll_iff hincoming]

/-- Every trade of a run is reported once to each counterparty exactly when
every command of the run books all its trades. -/
theorem trades_reported_iff {commands : List (Command P)} (h : Valid commands) (clock : Clock)
    (symbol : Instrument) (currentId : TradeID) :
    ∃ s, processAll clock (init symbol currentId) commands = some s ∧
      ((∀ trade ∈ s.matchedTrades, s.ReportedOnce trade) ↔
        Meets clock BooksAll (init symbol currentId) commands) := by
  obtain ⟨s, hs, htrades, hexact⟩ := processAll_exact clock (fun _ s => s.TradesInvariant)
    (fun s => s.tradeCalls.map Prod.fst = s.matchedTrades) BooksAll
    (tradesInvariant_init symbol currentId) rfl (fun _ s cmd s' hinv hcmd htrades hs' =>
      ⟨tradesInvariant_step hinv.sound hcmd htrades hs', tradeCalls_step hinv hcmd htrades hs'⟩) h
  exact ⟨s, hs, htrades.reportedOnce_iff.trans hexact⟩

namespace Sample

def firstTrade : Trade ℚ := ⟨1, .eurusd, 3, 1, 3, 10, 0⟩

def secondTrade : Trade ℚ := ⟨2, .eurusd, 3, 2, 4, 10, 0⟩

end Sample

theorem trades_reported_iff_sample :
    ∃ s, processAll (fun _ => 0) (init .eurusd 0) Sample.twoFills = some s ∧
      ((∀ trade ∈ s.matchedTrades, s.ReportedOnce trade) ↔
        Meets (fun _ => 0) BooksAll (init .eurusd 0) Sample.twoFills) :=
  trades_reported_iff (by decide) (fun _ => 0) .eurusd 0

/-- The second trade of the buy is never published. -/
theorem second_trade_unreported :
    Valid Sample.twoFills ∧
      ∃ s, processAll (fun _ => 0) (init .eurusd 0) Sample.twoFills = some s ∧
        ¬∀ trade ∈ s.matchedTrades, s.ReportedOnce trade := by
  refine ⟨by decide, ?_⟩
  have hrun : (processAll (fun _ => 0) (init .eurusd 0) Sample.twoFills).map
      (fun s => (s.matchedTrades, s.tradeCalls.map Prod.fst)) =
        some ([Sample.firstTrade, Sample.secondTrade], [Sample.firstTrade]) := by
    decide +kernel
  obtain ⟨s, hs, hlists⟩ := Option.map_eq_some_iff.mp hrun
  obtain ⟨hmatched, hcalls⟩ := Prod.mk.inj hlists
  refine ⟨s, hs, fun hreported => ?_⟩
  obtain ⟨buyOrder, sellOrder, hfilter, _⟩ := hreported Sample.secondTrade (by simp [hmatched])
  have hmem : (Sample.secondTrade, buyOrder, sellOrder) ∈ s.tradeCalls := by
    refine List.mem_of_mem_filter (p := fun call => call.1 = Sample.secondTrade) ?_
    rw [hfilter]
    exact List.mem_singleton.mpr rfl
  have hfirst : Sample.secondTrade ∈ s.tradeCalls.map Prod.fst :=
    List.mem_map_of_mem (f := Prod.fst) hmem
  rw [hcalls] at hfirst
  revert hfirst
  decide

/-! ## Storage -/

/-- A replaced order finds nothing to trade with. -/
def StoresAll (s : Partition P) : Command P → Prop
  | .modifyOrder cmd => ∀ order ∈ s.incomingOrder (.modifyOrder cmd),
      order.openQuantity = 0 ∨ s.crossing order = []
  | _ => True

theorem storedTrades_step (hinv : s.Invariant ids) (hcmd : Admissible ids cmd)
    (htrades : s.TradesInvariant) (h : processCommand clock s cmd = some s') :
    s'.storedTrades.Perm s'.matchedTrades ↔
      s.storedTrades.Perm s.matchedTrades ∧ s.StoresAll cmd := by
  have hperm : ∀ {t : Partition P}, t.TradesInvariant →
      (t.storedTrades.Perm t.matchedTrades ↔ t.storedTrades = t.matchedTrades) := fun ht =>
    ⟨fun hp => ht.stored.eq_of_length hp.length_eq, fun heq => heq ▸ List.Perm.refl _⟩
  rw [hperm htrades, hperm (tradesInvariant_step hinv.sound hcmd htrades h)]
  rcases trades_step hinv.sound hcmd h with
    ⟨hincoming, _, hmatched, _, hstored⟩ |
      ⟨order, hincoming, trades, tick, htradesOf, _, hmatched, _, hstored⟩
  · rw [hmatched, hstored]
    cases cmd <;> simp [StoresAll, hincoming]
  · rw [hmatched, hstored]
    cases cmd with
    | newOrder c => simp [StoresAll, storedBy]
    | cancelOrder c => simp [incomingOrder] at hincoming
    | modifyOrder c =>
        have hnil : [] = trades ↔ order.openQuantity = 0 ∨ s.crossing order = [] := by
          rw [htradesOf, eq_comm, ← List.length_eq_zero_iff, length_tradesOf,
            List.length_eq_zero_iff]
          exact Allocation.fills_eq_nil_iff
        have hsplit : s.storedTrades ++ [] = s.matchedTrades ++ trades ↔ _ :=
          Lists.append_eq_append_iff_of_sublist htrades.stored (List.nil_sublist _)
        refine hsplit.trans (and_congr_right fun _ => hnil.trans ?_)
        simp [StoresAll, hincoming]

/-- The stored trades are the trades of the run exactly when no command of the
run lets a replaced order trade. -/
theorem trades_stored_iff {commands : List (Command P)} (h : Valid commands) (clock : Clock)
    (symbol : Instrument) (currentId : TradeID) :
    ∃ s, processAll clock (init symbol currentId) commands = some s ∧
      (s.storedTrades.Perm s.matchedTrades ↔
        Meets clock StoresAll (init symbol currentId) commands) := by
  obtain ⟨s, hs, _, hexact⟩ := processAll_exact clock (fun _ s => s.TradesInvariant)
    (fun s => s.storedTrades.Perm s.matchedTrades) StoresAll
    (tradesInvariant_init symbol currentId) (List.Perm.refl _) (fun _ s cmd s' hinv hcmd htrades
      hs' => ⟨tradesInvariant_step hinv.sound hcmd htrades hs',
        storedTrades_step hinv hcmd htrades hs'⟩) h
  exact ⟨s, hs, hexact⟩

namespace Sample

/-- A buy that is replaced by a higher one, which a sell fills. -/
def replaceFills : List (Command ℚ) :=
  [submit 1 "S1" .sell .limit 3 10, submit 2 "B1" .buy .limit 3 (19 / 2), modify 2 10 3]

end Sample

theorem trades_stored_iff_sample :
    ∃ s, processAll (fun _ => 0) (init .eurusd 0) Sample.replaceFills = some s ∧
      (s.storedTrades.Perm s.matchedTrades ↔
        Meets (fun _ => 0) StoresAll (init .eurusd 0) Sample.replaceFills) :=
  trades_stored_iff (by decide) (fun _ => 0) .eurusd 0

/-- The trade of the replaced buy is never stored. -/
theorem replace_trade_unstored :
    Valid Sample.replaceFills ∧
      ∃ s, processAll (fun _ => 0) (init .eurusd 0) Sample.replaceFills = some s ∧
        ¬s.storedTrades.Perm s.matchedTrades := by
  refine ⟨by decide, ?_⟩
  have hrun : (processAll (fun _ => 0) (init .eurusd 0) Sample.replaceFills).map
      (fun s => (s.storedTrades.length, s.matchedTrades.length)) = some (0, 1) := by
    decide +kernel
  obtain ⟨s, hs, hlengths⟩ := Option.map_eq_some_iff.mp hrun
  obtain ⟨hstored, hmatched⟩ := Prod.mk.inj hlengths
  refine ⟨s, hs, fun hperm => ?_⟩
  have hlength := hperm.length_eq
  omega

end Publication

end Partition

end BetaTrader
