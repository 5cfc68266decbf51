import BetaTrader.Exchange.AtomicRefusal
import BetaTrader.Exchange.TradeLedger

/-!
# Every command is answered once

The reports of a run fall into blocks, one for each command and in the order of the
commands.  A block opens with the one report that answers the command, and goes on with
the two reports of each trade that the command's order has made.
-/

namespace BetaTrader

open ExecutionPublisher

variable {P : Type}

/-- The action with which a command is answered unless it is refused. -/
def Command.action : Command P → String
  | .newOrder _ => "NEW"
  | .cancelOrder _ => "CANCELED"
  | .modifyOrder _ => "REPLACED"

/-- A trade of the order `id`, with the two orders as they are reported. -/
structure TradeOf (id : OrderID) (t : Trade P × Order P × Order P) : Prop where
  buyer : t.2.1.coreOrderId = t.1.buyOrderId
  seller : t.2.2.coreOrderId = t.1.sellOrderId
  distinct : t.1.buyOrderId ≠ t.1.sellOrderId
  party : t.1.buyOrderId = id ∨ t.1.sellOrderId = id

/-- The trades that one command makes and the reports that it brings about. -/
inductive Answers (cmd : Command P) : List (Trade P) → List (ExecutionReport P) → Prop where
  | refused (report : ExecutionReport P) (orderId : report.exchangeOrderId = cmd.orderId)
      (status : report.status = .rejected) (untraded : report.lastQuantity = 0) :
      Answers cmd [] [report]
  | done (report : ExecutionReport P) (matched : List (Trade P))
      (trades : List (Trade P × Order P × Order P))
      (orderId : report.exchangeOrderId = cmd.orderId) (status : report.status ≠ .rejected)
      (action : report.text = cmd.action) (untraded : report.lastQuantity = 0)
      (made : trades.map Prod.fst <+: matched) (parties : ∀ t ∈ trades, TradeOf cmd.orderId t) :
      Answers cmd matched (report :: trades.flatMap fun t => publishTrade t.1 t.2.1 t.2.2)

namespace Partition

open Matcher

section Booking

variable {s : Partition P} {order served : Order P} {fs : List (Order P × ℕ)} {cmd : Command P}
  {trades : List (Trade P)}

/-- A booked trade with the two orders of its reports. -/
def bookedTrade (served : Order P) (p : (Order P × ℕ) × Trade P) : Trade P × Order P × Order P :=
  (p.2, buyer served (p.1.1.giveFill p.1.2), seller served (p.1.1.giveFill p.1.2))

variable [Zero P]

theorem flatMap_allReports_fillEvents (f : Order P × ℕ) (trade : Trade P) :
    (fillEvents served f trade).flatMap Event.allReports =
      publishTrade trade (bookedTrade served (f, trade)).2.1
        (bookedTrade served (f, trade)).2.2 := by
  rw [fillEvents, bookedEvents, List.flatMap_append, List.flatMap_map]
  simp [Event.allReports, Publication.reports, bookedTrade]

theorem flatMap_allReports_bookingEvents :
    (bookingEvents (postEvents cmd) served fs trades).flatMap Event.allReports =
      (((bookedFills served fs).zip trades).map (bookedTrade served)).flatMap fun t =>
        publishTrade t.1 t.2.1 t.2.2 := by
  have hpost (trade : Trade P) : (postEvents cmd trade).flatMap Event.allReports = [] := by
    cases cmd <;> rfl
  rw [flatMap_bookingEvents, List.flatMap_map]
  simp only [hpost, flatMap_allReports_fillEvents, List.nil_append,
    List.flatMap_eq_nil_iff.mpr fun _ _ => rfl, List.append_nil]
  rfl

theorem flatMap_allReports_admissionEvents (clock : Clock) (hcmd : ∀ c, cmd ≠ .cancelOrder c) :
    (s.admissionEvents clock order cmd).flatMap Event.allReports = [admissionReport order cmd] := by
  cases cmd with
  | newOrder c => rfl
  | cancelOrder c => exact (hcmd c rfl).elim
  | modifyOrder c =>
      rw [admissionEvents, List.flatMap_append, flatMap_cancelEvents fun _ => rfl]
      rfl

end Booking

section Commands

variable [PriceArith P] {ids : List OrderID} {s s' : Partition P} {order : Order P}
  {cmd : Command P} {clock : Clock}

theorem answers_executed (clock : Clock) (h : s.incomingOrder cmd = some order) :
    s.answers (s.executed clock order cmd) = admissionReport order cmd ::
      ((((bookedFills ((s.prepared clock order cmd).served order)
          ((s.prepared clock order cmd).fills order)).zip
        ((s.prepared clock order cmd).trades clock order)).map
          (bookedTrade ((s.prepared clock order cmd).served order))).flatMap fun t =>
            publishTrade t.1 t.2.1 t.2.2) := by
  have hcmd (c : CancelOrder) : cmd ≠ .cancelOrder c := by
    rintro rfl
    simp [incomingOrder] at h
  have hclosing : ((s.prepared clock order cmd).closingEvents order).flatMap
      Event.allReports = [] := by
    rw [closingEvents]
    split_ifs <;> rfl
  rw [answers, recorded_eq executed_journal, List.flatMap_append, List.flatMap_cons,
    List.flatMap_append, flatMap_allReports_admissionEvents clock hcmd,
    flatMap_allReports_bookingEvents, hclosing, List.append_nil]
  rfl

/-- The trades that are booked are trades of the incoming order. -/
theorem tradeOf_bookedTrade (hinv : s.Sound ids) (hcmd : Admissible ids cmd)
    (h : s.incomingOrder cmd = some order) {t : Trade P × Order P × Order P}
    (ht : t ∈ ((bookedFills ((s.prepared clock order cmd).served order)
        ((s.prepared clock order cmd).fills order)).zip
      ((s.prepared clock order cmd).trades clock order)).map
        (bookedTrade ((s.prepared clock order cmd).served order))) :
    TradeOf order.coreOrderId t := by
  obtain ⟨p, hp, rfl⟩ := List.mem_map.mp ht
  have hbooked := bookedFills_prefix_self ((s.prepared clock order cmd).served order)
    ((s.prepared clock order cmd).fills order)
  have hmatchable := (hinv.prepared hcmd h clock).matchable
  have hne : p.1.1.coreOrderId ≠ order.coreOrderId := fun heq =>
    incoming_notMem_touchedIds hmatchable
      (heq ▸ List.mem_map_of_mem (hbooked.subset (List.of_mem_zip hp).1))
  rw [trades] at hp
  obtain ⟨tradeId, tick, htrade⟩ := mem_zip_tradesOf (Lists.mem_zip_of_prefix hbooked hp)
  obtain ⟨qty, status, hserved⟩ := (s.prepared clock order cmd).served_set order
  by_cases hside : order.side = .buy
  · refine ⟨?_, ?_, ?_, ?_⟩ <;>
      simp [bookedTrade, htrade, tradeOf, buyer, seller, hserved, hside, hne.symm, Order.giveFill]
  · refine ⟨?_, ?_, ?_, ?_⟩ <;>
      simp [bookedTrade, htrade, tradeOf, buyer, seller, hserved, hside, hne, Order.giveFill]

theorem processCommand_answers (hinv : s.Sound ids) (hcmd : Admissible ids cmd)
    (h : processCommand clock s cmd = some s') : ∃ events, s'.journal = s.journal ++ events ∧
      Answers cmd (events.flatMap Event.matchedTrades) (events.flatMap Event.allReports) := by
  rcases processCommand_cases hinv hcmd clock with
    ⟨_, clientId, symbol, side, reason, heq⟩ | ⟨c, old, rfl, hold, _, heq⟩ |
      ⟨order, hincoming, heq⟩
  · obtain rfl := Option.some.inj (heq.symm.trans h)
    exact ⟨_, rfl, .refused _ rfl rfl rfl⟩
  · obtain rfl := Option.some.inj (heq.symm.trans h)
    refine ⟨_, cancelled_journal, ?_⟩
    rw [List.flatMap_append, List.flatMap_append, flatMap_cancelEvents fun _ => rfl,
      flatMap_cancelEvents fun _ => rfl]
    exact .done _ [] [] (hinv.managed _ old hold).1 OrderStatus.noConfusion rfl rfl
      List.nil_prefix (by simp)
  · obtain rfl := Option.some.inj (heq.symm.trans h)
    refine ⟨_, executed_journal, ?_⟩
    have hid := orderId_of_incoming hinv hcmd hincoming
    have hadmission := admissionReport_status hincoming
    have hreports := answers_executed clock hincoming
    rw [answers, recorded_eq executed_journal] at hreports
    rw [hreports]
    refine .done _ _ _ ?_ ?_ ?_ ?_ ?_ fun t ht => hid ▸ tradeOf_bookedTrade hinv hcmd hincoming ht
    · rw [← hid]
      cases cmd <;> rfl
    · rw [hadmission]
      exact OrderStatus.noConfusion
    · cases cmd with
      | newOrder c => rfl
      | cancelOrder c => simp [incomingOrder] at hincoming
      | modifyOrder c => rfl
    · cases cmd <;> rfl
    · rw [List.flatMap_append, List.flatMap_cons, List.flatMap_append,
        ignoresAdmission_matchedTrades.admissionEvents,
        bookingEvents_matchedTrades, ignoresAdmission_matchedTrades.closingEvents, List.map_map]
      have hbooked : Prod.fst ∘ bookedTrade ((s.prepared clock order cmd).served order) =
          Prod.snd := rfl
      rw [hbooked, Lists.zip_map_snd]
      simpa [Event.matchedTrades] using List.take_prefix _ _

/-- The trades and the reports of a run fall into one block for each command. -/
def AnswersAll (commands : List (Command P)) (s : Partition P) : Prop :=
  ∃ blocks : List (List (Trade P) × List (ExecutionReport P)),
    List.Forall₂ (fun cmd block => Answers cmd block.1 block.2) commands blocks ∧
      s.matchedTrades = (blocks.map Prod.fst).flatten ∧
      s.journal.flatMap Event.allReports = (blocks.map Prod.snd).flatten

theorem answersAll_step (history : List (Command P)) (s : Partition P) (cmd : Command P)
    (s' : Partition P) (hsound : s.Sound (newIds history))
    (hcmd : Admissible (newIds history) cmd) (h : AnswersAll history s)
    (h' : processCommand clock s cmd = some s') : AnswersAll (history ++ [cmd]) s' := by
  obtain ⟨blocks, hblocks, htrades, hreports⟩ := h
  obtain ⟨events, hjournal, hanswers⟩ := processCommand_answers hsound hcmd h'
  refine ⟨blocks ++ [(events.flatMap Event.matchedTrades, events.flatMap Event.allReports)],
    List.rel_append hblocks (.cons hanswers .nil), ?_, ?_⟩
  · rw [matchedTrades] at htrades
    simp [matchedTrades, hjournal, htrades]
  · simp [hjournal, hreports]

/-- Every run publishes a block for each of its commands, in their order, and nothing else. -/
theorem commands_answered {commands : List (Command P)} (hvalid : Valid commands) (clock : Clock)
    (symbol : Instrument) (currentId : TradeID) :
    ∃ s, processAll clock (init symbol currentId) commands = some s ∧ AnswersAll commands s := by
  have hinit : AnswersAll [] (init symbol currentId : Partition P) :=
    ⟨[], List.Forall₂.nil, rfl, rfl⟩
  obtain ⟨s, hs, _, hblocks⟩ := processAll_sound_induction AnswersAll hinit
    answersAll_step hvalid
  exact ⟨s, hs, hblocks⟩

theorem commands_answered_sample :
    ∃ s, processAll (fun _ => 0) (init .eurusd 0) Sample.commands = some s ∧
      AnswersAll Sample.commands s :=
  commands_answered Sample.valid_commands (fun _ => 0) .eurusd 0

end Commands

end Partition

end BetaTrader
