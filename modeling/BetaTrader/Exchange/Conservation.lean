import BetaTrader.Exchange.Execution
import BetaTrader.Exchange.TradeLedger

/-!
# Conservation of quantity

Every order has an account: the quantity it was last accepted or replaced with,
and what the trades that name it have taken since.  What an order has open and
what its account shows as traded always make up its quantity.
-/

namespace BetaTrader

variable {P : Type}

structure Account where
  quantity : Quantity
  traded : ℕ

/-- The account of the order `id` after an event.  The acceptance and the
replacement of the order open it anew; every trade that names it counts. -/
def Event.enter (id : OrderID) (account : Option Account) : Event P → Option Account
  | .published (.execution order action) =>
      if order.coreOrderId = id ∧ (action = "NEW" ∨ action = "REPLACED") then
        some ⟨order.originalQuantity, 0⟩
      else account
  | .matched trades => account.map fun a =>
      { a with traded := a.traded + (trades.map fun trade => trade.takes id).sum }
  | _ => account

/-- The event shows in no account. -/
def Event.Quiet (event : Event P) : Prop :=
  ∀ id account, event.enter id account = account

/-- The quantity a command asks for. -/
def Command.quantity : Command P → Quantity
  | .newOrder cmd => cmd.order.originalQuantity
  | .cancelOrder _ => 0
  | .modifyOrder cmd => cmd.newQuantity

/-- The order is the one the account is about, and has open what is not traded. -/
structure Balances (id : OrderID) (account : Account) (order : Order P) : Prop where
  coreOrderId : order.coreOrderId = id
  quantity : order.originalQuantity = account.quantity
  sum : order.remainingQuantity.toNat + account.traded = account.quantity.toNat

theorem Balances.fill {id : OrderID} {account : Account} {amount : ℕ}
    {order order' : Order P} (h : Balances id account order)
    (hid : order'.coreOrderId = order.coreOrderId)
    (hquantity : order'.originalQuantity = order.originalQuantity)
    (hopen : order'.openQuantity = order.openQuantity - amount)
    (hle : amount ≤ order.openQuantity) :
    Balances id { account with traded := account.traded + amount } order' := by
  refine ⟨hid.trans h.coreOrderId, hquantity.trans h.quantity, ?_⟩
  have hsum : order.openQuantity + account.traded = account.quantity.toNat := h.sum
  change order'.openQuantity + (account.traded + amount) = account.quantity.toNat
  omega

namespace Partition

open Matcher

/-- The account of the order `id`, read off the journal. -/
def account (s : Partition P) (id : OrderID) : Option Account :=
  s.journal.foldl (Event.enter id) none

/-- The order `id` has been seen, on this side. -/
def Party (s : Partition P) (id : OrderID) (side : OrderSide) : Prop :=
  ∃ order, s.orderManager.lastSeen id = some order ∧ order.side = side

/-- The accounts are those of the orders that have been seen, all of them
balance, and every trade is one between a buy and a sell order. -/
structure Conserved (s : Partition P) : Prop where
  balanced : ∀ id, Option.Rel (Balances id) (s.account id) (s.orderManager.lastSeen id)
  parties : ∀ trade ∈ s.matchedTrades, 0 < trade.quantity ∧ s.Party trade.buyOrderId .buy ∧
    s.Party trade.sellOrderId .sell

/-! ## Accounts -/

section Accounts

variable {clock : Clock} {order : Order P} {s : Partition P}

theorem account_of_quiet {s' : Partition P} {events : List (Event P)}
    (hjournal : s'.journal = s.journal ++ events) (hquiet : ∀ event ∈ events, event.Quiet)
    (id : OrderID) : s'.account id = s.account id := by
  rw [account, hjournal, List.foldl_append]
  exact Lists.foldl_eq_self (fun event hevent => hquiet event hevent id) _

theorem quiet_cancelEvents (clock : Clock) (id : OrderID) :
    ∀ event ∈ s.cancelEvents clock id, event.Quiet := by
  intro event hevent
  rw [cancelEvents] at hevent
  split_ifs at hevent
  · obtain ⟨_, _, rfl⟩ := Option.map_eq_some_iff.mp (Option.mem_toList.mp hevent)
    exact fun _ _ => rfl
  · exact (List.not_mem_nil hevent).elim

theorem quiet_bookingEvents (cmd : Command P) (served : Order P) (fs : List (Order P × ℕ))
    (trades : List (Trade P)) :
    ∀ event ∈ bookingEvents (postEvents cmd) served fs trades, event.Quiet := by
  have hpost : ∀ trade, ∀ event ∈ postEvents cmd trade, event.Quiet := by
    intro trade event hevent
    cases cmd with
    | newOrder c =>
        rw [List.mem_singleton.mp hevent]
        exact fun _ _ => rfl
    | cancelOrder c => exact (List.not_mem_nil hevent).elim
    | modifyOrder c => exact (List.not_mem_nil hevent).elim
  have hfill : ∀ f trade, ∀ event ∈ fillEvents served f trade, event.Quiet := by
    intro f trade event hevent
    simp only [fillEvents, bookedEvents, List.cons_append, List.nil_append, List.mem_cons,
      List.mem_map] at hevent
    rcases hevent with rfl | rfl | rfl | ⟨_, _, rfl⟩ <;> exact fun _ _ => rfl
  intro event hevent
  simp only [bookingEvents, List.mem_append, List.mem_flatMap] at hevent
  rcases hevent with ⟨p, _, hevent | hevent⟩ | ⟨trade, _, hevent⟩
  · exact hpost _ event hevent
  · exact hfill _ _ event hevent
  · exact hpost _ event hevent

/-- Admission opens the account of the order with the quantity of the command. -/
theorem account_prepared [FinitePrice P] {cmd : Command P} (h : s.incomingOrder cmd = some order)
    (clock : Clock) (id : OrderID) : (s.prepared clock order cmd).account id =
      if order.coreOrderId = id then some ⟨cmd.quantity, 0⟩ else s.account id := by
  have hopen : ∀ {events : List (Event P)} {action : String},
      (∀ event ∈ events, event.Quiet) → action = "NEW" ∨ action = "REPLACED" →
      (events ++ [Event.published (.execution order action)]).foldl (Event.enter id)
          (s.account id) =
        if order.coreOrderId = id then some ⟨order.originalQuantity, 0⟩ else s.account id := by
    intro events action hquiet haction
    rw [List.foldl_append, Lists.foldl_eq_self fun event hevent => hquiet event hevent id]
    simp [Event.enter, haction]
  rw [account, prepared_journal, List.foldl_append]
  cases cmd with
  | newOrder c =>
      obtain rfl : c.order = order := Option.some.inj (Option.ite_none_right_eq_some.mp h).2
      have hquiet : ∀ event ∈ [Event.enqueued (.saveOrder c.order)], event.Quiet := by
        simp [Event.Quiet, Event.enter]
      exact hopen hquiet (Or.inl rfl)
  | cancelOrder c => simp [incomingOrder] at h
  | modifyOrder c =>
      obtain ⟨old, _, rfl⟩ := Option.map_eq_some_iff.mp h
      have hquiet : ∀ event ∈ s.cancelEvents clock (c.applyTo old).coreOrderId ++
          [.enqueued (.removeOrder (c.applyTo old).coreOrderId),
            .enqueued (.saveOrder (c.applyTo old))], event.Quiet := by
        intro event hevent
        rcases List.mem_append.mp hevent with hevent | hevent
        · exact quiet_cancelEvents clock _ event hevent
        · rcases List.mem_pair.mp hevent with rfl | rfl <;> exact fun _ _ => rfl
      have hevents := hopen hquiet (Or.inr rfl)
      rw [List.append_assoc] at hevents
      exact hevents

theorem account_afterMatch [LT P] [DecidableLT P] (clock : Clock) (id : OrderID) :
    (s.afterMatch clock order).account id = (s.account id).map fun a =>
      { a with traded :=
          a.traded + ((s.trades clock order).map fun trade => trade.takes id).sum } := by
  rw [account, afterMatch, List.foldl_append]
  rfl

theorem account_afterAll [FinitePrice P] (clock : Clock) (cmd : Command P) (id : OrderID) :
    (s.afterAll clock order cmd).account id = (s.afterMatch clock order).account id := by
  have hjournal : (s.afterAll clock order cmd).journal = (s.afterMatch clock order).journal ++
      (bookingEvents (postEvents cmd) (s.served order) (s.fills order) (s.trades clock order) ++
        s.closingEvents order) := by
    rw [afterAll_journal, afterMatch_journal, List.append_assoc]
    rfl
  refine account_of_quiet hjournal (fun event hevent => ?_) id
  rcases List.mem_append.mp hevent with hevent | hevent
  · exact quiet_bookingEvents cmd _ _ _ event hevent
  · rw [closingEvents] at hevent
    split_ifs at hevent
    · rw [List.mem_singleton.mp hevent]
      exact fun _ _ => rfl
    · exact (List.not_mem_nil hevent).elim
    · rw [List.mem_singleton.mp hevent]
      exact fun _ _ => rfl

end Accounts

/-! ## What the trades of a match take -/

section Takes

variable {order : Order P} {fs : List (Order P × ℕ)} {clock : Clock} {currentId : TradeID}
  {tick : ℕ}

theorem takes_incoming (hsmall : ∀ f ∈ fs, f.2 < 2 ^ 64) :
    ((tradesOf clock order fs currentId tick).map fun trade => trade.takes order.coreOrderId) =
      fs.map Prod.snd := by
  induction fs generalizing currentId tick with
  | nil => rfl
  | cons f fs ih =>
      rw [tradesOf, List.map_cons, List.map_cons, ih fun g hg => hsmall g (by simp [hg]),
        Trade.takes, if_pos (tradeOf_incoming clock order f.1 f.2 _ _)]
      congr 1
      exact Nat.mod_eq_of_lt (hsmall f (by simp))

theorem takes_other {id : OrderID} (hid : id ≠ order.coreOrderId)
    (hsmall : ∀ f ∈ fs, f.2 < 2 ^ 64) :
    ((tradesOf clock order fs currentId tick).map fun trade => trade.takes id) =
      fs.map fun f => if f.1.coreOrderId = id then f.2 else 0 := by
  induction fs generalizing currentId tick with
  | nil => rfl
  | cons f fs ih =>
      have hf : (UInt64.ofNat f.2).toNat = f.2 := Nat.mod_eq_of_lt (hsmall f (by simp))
      rw [tradesOf, List.map_cons, List.map_cons, ih fun g hg => hsmall g (by simp [hg])]
      congr 1
      by_cases hside : order.side = .buy <;> simp [Trade.takes, tradeOf, hside, hid.symm, hf]

theorem sum_takes_untouched {id : OrderID} (hid : id ∉ touchedIds fs) :
    (fs.map fun f => if f.1.coreOrderId = id then f.2 else 0).sum = 0 := by
  refine List.sum_eq_zero fun n hn => ?_
  obtain ⟨f, hf, rfl⟩ := List.mem_map.mp hn
  exact if_neg fun heq : f.1.coreOrderId = id => hid (heq ▸ List.mem_map_of_mem hf)

theorem sum_takes_touched (hnodup : (touchedIds fs).Nodup) {f : Order P × ℕ} (hf : f ∈ fs) :
    (fs.map fun g => if g.1.coreOrderId = f.1.coreOrderId then g.2 else 0).sum = f.2 := by
  induction fs with
  | nil => exact (List.not_mem_nil hf).elim
  | cons g fs ih =>
      rw [touchedIds_cons, List.nodup_cons] at hnodup
      rw [List.map_cons, List.sum_cons]
      rcases List.mem_cons.mp hf with rfl | hf
      · rw [if_pos rfl, sum_takes_untouched hnodup.1, Nat.add_zero]
      · have hne : g.1.coreOrderId ≠ f.1.coreOrderId := fun heq =>
          hnodup.1 (heq ▸ List.mem_map_of_mem hf)
        rw [if_neg hne, ih hnodup.2 hf, Nat.zero_add]

end Takes

/-! ## One command -/

section Steps

variable [FinitePrice P] {ids : List OrderID} {s s' : Partition P} {order : Order P}
  {cmd : Command P} {clock : Clock}

omit [FinitePrice P] in
theorem Party.mono {id : OrderID} {side : OrderSide} (h : s.Party id side)
    (hkeep : ∀ order, s.orderManager.lastSeen id = some order → s'.Party id order.side) :
    s'.Party id side := by
  obtain ⟨order, horder, rfl⟩ := h
  exact hkeep order horder

omit [FinitePrice P] in
/-- What changes neither accounts nor trades nor the sight of orders. -/
theorem Conserved.congr (h : s.Conserved) (haccount : ∀ id, s'.account id = s.account id)
    (hseen : ∀ id, s'.orderManager.lastSeen id = s.orderManager.lastSeen id)
    (htrades : s'.matchedTrades = s.matchedTrades) : s'.Conserved where
  balanced id := by
    rw [haccount, hseen]
    exact h.balanced id
  parties := by
    simp only [Party, htrades, hseen]
    exact h.parties

theorem incomingOrder_originalQuantity (h : s.incomingOrder cmd = some order) :
    order.originalQuantity = cmd.quantity := by
  cases cmd with
  | newOrder c =>
      obtain rfl : c.order = order := Option.some.inj (Option.ite_none_right_eq_some.mp h).2
      rfl
  | cancelOrder c => simp [incomingOrder] at h
  | modifyOrder c =>
      obtain ⟨old, _, rfl⟩ := Option.map_eq_some_iff.mp h
      rfl

/-- A replaced order keeps its side. -/
theorem prepared_party (hinv : s.Invariant ids) (hcmd : Admissible ids cmd) (hseen : s.Seen ids)
    (h : s.incomingOrder cmd = some order) (clock : Clock) {id : OrderID} {side : OrderSide}
    (hparty : s.Party id side) : (s.prepared clock order cmd).Party id side := by
  refine hparty.mono fun order' horder' => ?_
  by_cases hid : order.coreOrderId = id
  · refine ⟨order, by rw [prepared_lastSeen h, if_pos hid], ?_⟩
    rcases incomingOrder_cases hinv.sound hcmd h with
      ⟨_, _, _, _, _, hfresh, _⟩ | ⟨c, old, _, rfl, _, hold, _⟩
    · exact (hfresh (hid ▸ hseen id order' horder')).elim
    · rw [← hid, OrderManager.lastSeen_of_orderMap hold] at horder'
      rw [← Option.some.inj horder']
      rfl
  · exact ⟨order', by rw [prepared_lastSeen h, if_neg hid, horder'], rfl⟩

/-- Admission balances: the order comes in, or is replaced, with all its quantity open. -/
theorem Conserved.prepared (hinv : s.Invariant ids) (hcmd : Admissible ids cmd)
    (hseen : s.Seen ids) (hconserved : s.Conserved) (h : s.incomingOrder cmd = some order)
    (clock : Clock) : (s.prepared clock order cmd).Conserved where
  balanced id := by
    rw [account_prepared h, prepared_lastSeen h]
    split_ifs with hid
    · have hasked := incomingOrder_originalQuantity h
      refine Option.Rel.some ⟨hid, hasked, ?_⟩
      rw [(incomingOrder_quantity h).1, hasked, Nat.add_zero]
    · exact hconserved.balanced id
  parties trade htrade := by
    have htrades : (s.prepared clock order cmd).matchedTrades = s.matchedTrades := by
      rw [matchedTrades, prepared_journal, List.flatMap_append,
        ignoresAdmission_matchedTrades.admissionEvents, List.append_nil]
      rfl
    obtain ⟨hpos, hbuy, hsell⟩ := hconserved.parties trade (htrades ▸ htrade)
    exact ⟨hpos, prepared_party hinv hcmd hseen h clock hbuy,
      prepared_party hinv hcmd hseen h clock hsell⟩

theorem Entered.fill_small (h : Entered ids s order) : ∀ f ∈ s.fills order, f.2 < 2 ^ 64 :=
  fun f hf => lt_of_le_of_lt (mem_fillsOn h.matchable hf).2.2.2 (Order.openQuantity_lt f.1)

theorem afterMatch_party (h : Entered ids s order) (clock : Clock) {id : OrderID}
    {side : OrderSide} (hparty : s.Party id side) : (s.afterMatch clock order).Party id side := by
  refine hparty.mono fun order' horder' => ?_
  rcases h.afterMatch_lastSeen clock id with
    ⟨hid, hnew⟩ | ⟨_, _, hsame⟩ | ⟨_, f, _, _, hold, hnew⟩
  · have hincoming := OrderManager.lastSeen_of_orderMap h.incoming_mem
    rw [hid, hincoming] at horder'
    obtain ⟨qty, status, hserved⟩ := s.served_set order
    refine ⟨_, hnew, ?_⟩
    rw [hserved, Option.some.inj horder']
    rfl
  · exact ⟨order', hsame.trans horder', rfl⟩
  · refine ⟨_, hnew, ?_⟩
    rw [← Option.some.inj (hold.symm.trans horder')]
    rfl

omit [FinitePrice P] in
theorem Conserved.exists_account (h : s.Conserved) {id : OrderID}
    (hseen : s.orderManager.lastSeen id = some order) :
    ∃ account, s.account id = some account ∧ Balances id account order := by
  have hbalanced := h.balanced id
  rw [hseen] at hbalanced
  exact Lists.exists_of_rel_some hbalanced

/-- A match takes from every order what its trades say. -/
theorem Conserved.afterMatch_balanced (h : Entered ids s order) (hconserved : s.Conserved)
    (clock : Clock) (id : OrderID) : Option.Rel (Balances id)
      ((s.afterMatch clock order).account id)
      ((s.afterMatch clock order).orderManager.lastSeen id) := by
  rw [account_afterMatch]
  rcases h.afterMatch_lastSeen clock id with
    ⟨hid, hnew⟩ | ⟨hid, huntouched, hsame⟩ | ⟨hid, f, hf, rfl, hold, hnew⟩
  · subst hid
    obtain ⟨account, haccount, hbalances⟩ :=
      hconserved.exists_account (OrderManager.lastSeen_of_orderMap h.incoming_mem)
    have hsum : ((s.fills order).map Prod.snd).sum =
        min order.openQuantity (Allocation.total Order.openQuantity (s.crossing order)) :=
      Allocation.sum_fills _ _
    have hopen : (s.served order).openQuantity = _ := served_openQuantity
    rw [hnew, haccount, trades, takes_incoming h.fill_small]
    exact Option.Rel.some
      (hbalances.fill served_coreOrderId served_originalQuantity (by omega) (by omega))
  · rw [hsame, trades, takes_other hid h.fill_small, sum_takes_untouched huntouched]
    simpa using hconserved.balanced id
  · obtain ⟨account, haccount, hbalances⟩ := hconserved.exists_account hold
    have hnodup : (touchedIds (s.fills order)).Nodup := nodup_touchedIds h.matchable
    have hle : f.2 ≤ f.1.openQuantity := (mem_fillsOn h.matchable hf).2.2.2
    rw [hnew, haccount, trades, takes_other hid h.fill_small, sum_takes_touched hnodup hf]
    exact Option.Rel.some (hbalances.fill rfl rfl (Order.openQuantity_giveFill hle) hle)

/-- A trade of a match is between the incoming order and one of the other side. -/
theorem afterMatch_parties (h : Entered ids s order) (clock : Clock) {trade : Trade P}
    (htrade : trade ∈ s.trades clock order) : 0 < trade.quantity ∧
      (s.afterMatch clock order).Party trade.buyOrderId .buy ∧
      (s.afterMatch clock order).Party trade.sellOrderId .sell := by
  obtain ⟨f, hf, tradeId, tick, rfl⟩ := mem_tradesOf htrade
  obtain ⟨hget, hmem, hpos, _⟩ := mem_fillsOn h.matchable hf
  have hincoming : (s.afterMatch clock order).Party order.coreOrderId order.side :=
    afterMatch_party h clock ⟨order, OrderManager.lastSeen_of_orderMap h.incoming_mem, rfl⟩
  have hresting : (s.afterMatch clock order).Party f.1.coreOrderId order.side.opposite := by
    obtain ⟨resting, horder, _, hside, _⟩ :=
      (h.book order.side.opposite).rests _ (mem_queue_of_mem_crossing hmem)
    obtain rfl := Option.some.inj (hget.symm.trans horder)
    exact afterMatch_party h clock ⟨_, OrderManager.lastSeen_of_orderMap hget, hside⟩
  have hquantity : 0 < UInt64.ofNat f.2 := by
    rw [Quantity.pos_iff]
    exact hpos.trans_eq (Nat.mod_eq_of_lt (h.fill_small f hf)).symm
  refine ⟨hquantity, ?_⟩
  cases hside : order.side with
  | buy =>
      rw [hside] at hincoming hresting
      simpa [tradeOf, hside] using ⟨hincoming, hresting⟩
  | sell =>
      rw [hside] at hincoming hresting
      simpa [tradeOf, hside] using ⟨hresting, hincoming⟩

theorem Conserved.afterMatch (h : Entered ids s order) (hconserved : s.Conserved)
    (clock : Clock) : (s.afterMatch clock order).Conserved where
  balanced := hconserved.afterMatch_balanced h clock
  parties trade htrade := by
    have htrades : (s.afterMatch clock order).matchedTrades =
        s.matchedTrades ++ s.trades clock order := by
      rw [matchedTrades, afterMatch_journal, List.flatMap_append, List.flatMap_singleton]
      rfl
    rw [htrades, List.mem_append] at htrade
    rcases htrade with htrade | htrade
    · obtain ⟨hpos, hbuy, hsell⟩ := hconserved.parties trade htrade
      exact ⟨hpos, afterMatch_party h clock hbuy, afterMatch_party h clock hsell⟩
    · exact afterMatch_parties h clock htrade

omit [FinitePrice P] in
theorem account_cancelled (clock : Clock) (id id' : OrderID) (order : Order P) :
    (((s.cancelled clock id).publish (.execution order "CANCELED")).retire id).account id' =
      s.account id' := by
  refine account_of_quiet cancelled_journal (fun event hevent => ?_) id'
  rcases List.mem_append.mp hevent with hevent | hevent
  · exact quiet_cancelEvents clock id event hevent
  · rcases List.mem_pair.mp hevent with rfl | rfl
    · exact fun _ _ => if_neg (by simp)
    · exact fun _ _ => rfl

theorem matchedTrades_afterAll : (s.afterAll clock order cmd).matchedTrades =
    (s.afterMatch clock order).matchedTrades := by
  rw [matchedTrades, afterAll_journal, List.flatMap_append, List.flatMap_cons,
    List.flatMap_append, bookingEvents_matchedTrades,
    ignoresAdmission_matchedTrades.closingEvents, matchedTrades, afterMatch_journal,
    List.flatMap_append, List.flatMap_singleton]
  simp

/-- A command keeps all accounts balanced. -/
theorem conserved_step (hinv : s.Invariant ids) (hcmd : Admissible ids cmd)
    (hseen : s.Seen ids) (hconserved : s.Conserved) (h : processCommand clock s cmd = some s') :
    s'.Conserved := by
  rcases processCommand_cases hinv.sound hcmd clock with
    ⟨_, _, _, _, _, heq⟩ | ⟨c, order, rfl, _, _, heq⟩ | ⟨order, hincoming, heq⟩
  · obtain rfl := Option.some.inj (heq.symm.trans h)
    refine hconserved.congr (account_of_quiet rfl ?_) (fun _ => rfl) ?_
    · intro event hevent
      rw [List.mem_singleton.mp hevent]
      exact fun _ _ => rfl
    · exact List.flatMap_append.trans (List.append_nil _)
  · obtain rfl := Option.some.inj (heq.symm.trans h)
    refine hconserved.congr (fun id => account_cancelled clock _ id order)
      (OrderManager.removeOrderById_lastSeen _ _) ?_
    exact (ignoresAdmission_matchedTrades.cancelled _ _).trans (List.append_nil _)
  · obtain rfl := Option.some.inj (heq.symm.trans h)
    have hadmitted := hinv.sound.prepared hcmd hincoming clock
    have hprepared := hconserved.prepared hinv hcmd hseen hincoming clock
    exact (hprepared.afterMatch hadmitted clock).congr (account_afterAll clock cmd)
      (fun id => afterAll_lastSeen id) matchedTrades_afterAll

omit [FinitePrice P] in
theorem conserved_init (symbol : Instrument) (currentId : TradeID) :
    (init symbol currentId : Partition P).Conserved where
  balanced _ := Option.Rel.none
  parties trade htrade := by simp [init, matchedTrades] at htrade

end Steps

/-- After every run the accounts balance.  They do when the next command takes
its order to the matcher, with the quantity it asks for, and when the match
returns. -/
theorem processAll_conserved [FinitePrice P] {commands : List (Command P)} (h : Valid commands)
    (clock : Clock) (symbol : Instrument) (currentId : TradeID) :
    ∃ s, processAll clock (init symbol currentId) commands = some s ∧ s.Conserved ∧
      ∀ cmd order, Admissible (newIds commands) cmd → s.incomingOrder cmd = some order →
        (s.prepared clock order cmd).account order.coreOrderId = some ⟨cmd.quantity, 0⟩ ∧
        (s.prepared clock order cmd).Conserved ∧
        ∃ t trades, (s.prepared clock order cmd).matchOrder clock order.coreOrderId =
          some (t, trades) ∧ t.Conserved := by
  have hrun : ∃ s, processAll clock (init symbol currentId) commands = some s ∧
      s.Invariant (newIds commands) ∧ s.Conserved ∧ s.Seen (newIds commands) := by
    refine processAll_induction (fun history s => s.Conserved ∧ s.Seen (newIds history))
      ⟨conserved_init symbol currentId, seen_init symbol currentId⟩ ?_ h
    intro history s cmd s' hinv hcmd hs hs'
    rw [newIds_concat]
    exact ⟨conserved_step hinv hcmd hs.2 hs.1 hs', seen_step hinv.sound hcmd hs.2 hs'⟩
  obtain ⟨s, hs, hinv, hconserved, hseen⟩ := hrun
  refine ⟨s, hs, hconserved, fun cmd order hcmd hincoming => ?_⟩
  have hadmitted := hinv.sound.prepared hcmd hincoming clock
  have hprepared := hconserved.prepared hinv hcmd hseen hincoming clock
  refine ⟨?_, hprepared, _, _, matchOrder_eq hadmitted.matchable,
    hprepared.afterMatch hadmitted clock⟩
  rw [account_prepared hincoming, if_pos rfl]

theorem processAll_conserved_sample :
    ∃ s, processAll (fun _ => 0) (init .eurusd 0) Sample.commands = some s ∧ s.Conserved ∧
      ∀ cmd order, Admissible (newIds Sample.commands) cmd → s.incomingOrder cmd = some order →
        (s.prepared (fun _ => 0) order cmd).account order.coreOrderId = some ⟨cmd.quantity, 0⟩ ∧
        (s.prepared (fun _ => 0) order cmd).Conserved ∧
        ∃ t trades, (s.prepared (fun _ => 0) order cmd).matchOrder (fun _ => 0) order.coreOrderId =
          some (t, trades) ∧ t.Conserved :=
  processAll_conserved Sample.valid_commands (fun _ => 0) .eurusd 0

end Partition

end BetaTrader
