import BetaTrader.Exchange.TaskScope
import BetaTrader.Lib.SharedCounter

/-!
# Drawing trade ids

The workers of all partitions draw their trade ids from one generator.  Here the
handlers are taken apart at their calls of `nextId`: each finds the counter as the
other workers have left it, and nothing else that a worker reads is changed by them.
-/

namespace BetaTrader

variable {P : Type}

namespace Matcher

/-- `fillFront`, whose call of `nextId` finds `currentId`. -/
def fillFrontDrawing (clock : Clock) (incomingOrder restingOrder : OrderPtr) (m : MatchState P) :
    Drawing (MatchState P) :=
  .draw fun currentId =>
    .done (fillFront clock incomingOrder restingOrder { m with currentId := currentId })

def matchLevelDrawing (clock : Clock) (incomingOrder : OrderPtr) (m : MatchState P) :
    PriceLevel → Drawing (MatchState P × PriceLevel)
  | [] => pure (m, [])
  | restingOrder :: restingLevel => do
      let incoming ← .done (m.manager.deref incomingOrder)
      if 0 < incoming.remainingQuantity then
        let m ← fillFrontDrawing clock incomingOrder restingOrder m
        let resting ← .done (m.manager.deref restingOrder)
        if resting.remainingQuantity = 0 then
          matchLevelDrawing clock incomingOrder m restingLevel
        else pure (m, restingOrder :: restingLevel)
      else pure (m, restingOrder :: restingLevel)

section Table

variable [LT P] [DecidableLT P]

def matchLevelsDrawing (clock : Clock) (incomingOrder : OrderPtr) (m : MatchState P) :
    PriceMap P → Drawing (MatchState P × PriceMap P)
  | [] => pure (m, [])
  | (price, restingLevel) :: restingMap => do
      let incoming ← .done (m.manager.deref incomingOrder)
      if 0 < incoming.remainingQuantity ∧ ¬breaks incoming price then
        let (m, restingLevel) ← matchLevelDrawing clock incomingOrder m restingLevel
        let (m, restingMap) ← matchLevelsDrawing clock incomingOrder m restingMap
        pure (m, if restingLevel.isEmpty then restingMap
          else (price, restingLevel) :: restingMap)
      else pure (m, (price, restingLevel) :: restingMap)

def matchTableDrawing (clock : Clock) (incomingOrder : OrderPtr) (m : MatchState P)
    (restingMap : PriceMap P) : Drawing (MatchState P × PriceMap P) := do
  let (m, restingMap) ← matchLevelsDrawing clock incomingOrder m restingMap
  let manager ← .done (m.manager.modify incomingOrder fun order =>
    order.setStatus (finalStatus order))
  pure ({ m with manager := manager }, restingMap)

def matchOrderDrawing (clock : Clock) (incomingOrder : OrderPtr) (m : MatchState P)
    (orderBook : OrderBook P) : Drawing (MatchState P × OrderBook P) := do
  let incoming ← .done (m.manager.deref incomingOrder)
  let (m, map) ← matchTableDrawing clock incomingOrder m
    (orderBook.sideMap incoming.side.opposite)
  pure (m, orderBook.setSideMap incoming.side.opposite map)

end Table

end Matcher

namespace Partition

section Handlers

variable [PriceArith P]

/-- `Matcher::match` on the partition's book, recorded in the journal. -/
def matchOrderDrawing (s : Partition P) (clock : Clock) (incomingOrder : OrderPtr) :
    Drawing (Partition P × List (Trade P)) := do
  let m : MatchState P := {
    manager := s.orderManager
    currentId := s.currentId
    ticks := s.ticks
    trades := [] }
  let (m, orderBook) ← Matcher.matchOrderDrawing clock incomingOrder m s.orderBook
  pure ({ orderManager := m.manager, orderBook := orderBook, currentId := m.currentId,
          ticks := m.ticks, journal := s.journal ++ [.matched m.trades] }, m.trades)

/-- A command that does not reach the matcher draws nothing. -/
def processCommandDrawing (clock : Clock) (s : Partition P) (cmd : Command P) :
    Drawing (Partition P) :=
  match s.matchCall clock cmd with
  | none => .done (s.processCommand clock cmd)
  | some (t, ptr) => do
      let (t, trades) ← t.matchOrderDrawing clock ptr
      .done (t.resume trades cmd)

/-- What a worker does with the commands in its queue. -/
def processAllDrawing (clock : Clock) : Partition P → List (Command P) → Drawing (Partition P)
  | s, [] => pure s
  | s, cmd :: commands => do
      let s ← s.processCommandDrawing clock cmd
      processAllDrawing clock s commands

end Handlers

end Partition

/-! ## Alone -/

namespace Matcher

variable {clock : Clock} {incomingOrder restingOrder : OrderPtr}

theorem fillFront_currentId {m m' : MatchState P}
    (h : fillFront clock incomingOrder restingOrder m = some m') :
    m'.currentId = m.currentId + 1 := by
  simp only [fillFront, Option.bind_eq_bind, Option.bind_eq_some_iff] at h
  obtain ⟨_, _, _, _, _, _, _, _, _, _, _, _, h⟩ := h
  obtain rfl := Option.some.inj h
  rfl

/-- The counter after a call of the matcher. -/
def counterOf {β : Type} (result : MatchState P × β) : ℕ := result.1.currentId

theorem computes_fillFront (m : MatchState P) :
    Drawing.Computes MatchState.currentId (fillFrontDrawing clock incomingOrder restingOrder m)
      m.currentId (fillFront clock incomingOrder restingOrder m) :=
  ⟨rfl, fun _ h => (fillFront_currentId h).symm⟩

theorem computes_matchLevel (m : MatchState P) (level : PriceLevel) :
    Drawing.Computes counterOf (matchLevelDrawing clock incomingOrder m level) m.currentId
      (matchLevel clock incomingOrder m level) := by
  induction level generalizing m with
  | nil => exact Drawing.computes_pure rfl
  | cons restingOrder restingLevel ih =>
      rw [matchLevelDrawing, matchLevel]
      apply Drawing.computes_done_bind
      intro incoming _
      split_ifs
      · apply (computes_fillFront m).bind
        intro m _
        apply Drawing.computes_done_bind
        intro resting _
        split_ifs
        · exact ih m
        · exact Drawing.computes_pure rfl
      · exact Drawing.computes_pure rfl

section Table

variable [LT P] [DecidableLT P]

theorem computes_matchLevels (m : MatchState P) (restingMap : PriceMap P) :
    Drawing.Computes counterOf (matchLevelsDrawing clock incomingOrder m restingMap) m.currentId
      (matchLevels clock incomingOrder m restingMap) := by
  induction restingMap generalizing m with
  | nil => exact Drawing.computes_pure rfl
  | cons l restingMap ih =>
      rw [matchLevelsDrawing, matchLevels]
      apply Drawing.computes_done_bind
      intro incoming _
      split_ifs
      · apply (computes_matchLevel m l.2).bind
        rintro ⟨m, restingLevel⟩ _
        apply (ih m).bind
        rintro ⟨m, restingMap⟩ _
        exact Drawing.computes_pure rfl
      · exact Drawing.computes_pure rfl

theorem computes_matchTable (m : MatchState P) (restingMap : PriceMap P) :
    Drawing.Computes counterOf (matchTableDrawing clock incomingOrder m restingMap) m.currentId
      (matchTable clock incomingOrder m restingMap) := by
  apply (computes_matchLevels m restingMap).bind
  rintro ⟨m, restingMap⟩ _
  apply Drawing.computes_done_bind
  intro manager _
  exact Drawing.computes_pure rfl

theorem computes_matchOrder (m : MatchState P) (orderBook : OrderBook P) :
    Drawing.Computes counterOf (matchOrderDrawing clock incomingOrder m orderBook) m.currentId
      (matchOrder clock incomingOrder m orderBook) := by
  apply Drawing.computes_done_bind
  intro incoming _
  apply (computes_matchTable m _).bind
  rintro ⟨m, map⟩ _
  exact Drawing.computes_pure rfl

end Table

end Matcher

namespace Partition

section Handlers

variable [PriceArith P] {clock : Clock}

theorem computes_matchOrder (s : Partition P) (incomingOrder : OrderPtr) :
    Drawing.Computes (fun result => result.1.currentId) (s.matchOrderDrawing clock incomingOrder)
      s.currentId (s.matchOrder clock incomingOrder) := by
  let m : MatchState P := {
    manager := s.orderManager, currentId := s.currentId, ticks := s.ticks, trades := [] }
  apply (Matcher.computes_matchOrder m s.orderBook).bind
  rintro ⟨m, orderBook⟩ _
  exact Drawing.computes_pure rfl

/-- Without other workers a command does what it does in the model of one worker. -/
theorem computes_processCommand (s : Partition P) (cmd : Command P) :
    Drawing.Computes currentId (s.processCommandDrawing clock cmd) s.currentId
      (s.processCommand clock cmd) := by
  unfold processCommandDrawing
  cases hcall : s.matchCall clock cmd with
  | none => exact ⟨rfl, fun _ h => (works_of_no_matchCall hcall h).currentId.symm⟩
  | some call =>
      obtain ⟨t, ptr⟩ := call
      have hcounter : t.currentId = s.currentId := by
        rw [(works_matchCall hcall).currentId]
        cases cmd <;> rfl
      rw [processCommand_of_matchCall hcall, ← hcounter]
      apply (t.computes_matchOrder ptr).bind
      rintro ⟨t, trades⟩ _
      exact ⟨rfl, fun _ h => (works_resume h).currentId.symm⟩

theorem computes_processAll (s : Partition P) (commands : List (Command P)) :
    Drawing.Computes currentId (processAllDrawing clock s commands) s.currentId
      (processAll clock s commands) := by
  induction commands generalizing s with
  | nil => exact Drawing.computes_pure rfl
  | cons cmd commands ih => exact (s.computes_processCommand cmd).bind fun s _ => ih s

end Handlers

end Partition

/-! ## Other trade ids -/

/-- The trade ids that belong to other readings of the counter. -/
def renumbering (σ : ℕ → ℕ) (id : TradeID) : TradeID := σ (id - 1) + 1

@[simp] theorem renumbering_succ (σ : ℕ → ℕ) (n : ℕ) : renumbering σ (n + 1) = σ n + 1 := rfl

def Trade.rename (ρ : TradeID → TradeID) (trade : Trade P) : Trade P :=
  { trade with tradeId := ρ trade.tradeId }

/-- The event with other trade ids; no other part of it changes. -/
def Event.rename (ρ : TradeID → TradeID) : Event P → Event P
  | .published (.trade trade buyOrder sellOrder) =>
      .published (.trade (trade.rename ρ) buyOrder sellOrder)
  | .enqueued (.addTrade trade) => .enqueued (.addTrade (trade.rename ρ))
  | .matched trades => .matched (trades.map (Trade.rename ρ))
  | event => event

def MatchState.renumber (ρ : TradeID → TradeID) (currentId : TradeID) (m : MatchState P) :
    MatchState P :=
  { m with currentId := currentId, trades := m.trades.map (Trade.rename ρ) }

namespace Partition

/-- The partition with other trade ids in its journal. -/
def renumber (ρ : TradeID → TradeID) (currentId : TradeID) (s : Partition P) : Partition P :=
  { s with currentId := currentId, journal := s.journal.map (Event.rename ρ) }

variable (ρ : TradeID → TradeID) (currentId : TradeID) (s : Partition P) {clock : Clock}

@[simp] theorem renumber_orderManager : (s.renumber ρ currentId).orderManager = s.orderManager :=
  rfl

@[simp] theorem renumber_orderBook : (s.renumber ρ currentId).orderBook = s.orderBook := rfl

@[simp] theorem renumber_ticks : (s.renumber ρ currentId).ticks = s.ticks := rfl

theorem renumber_publishRejection (orderId : OrderID) (clientId : ClientID)
    (symbol : Instrument) (side : OrderSide) (reason : String) :
    (s.renumber ρ currentId).publishRejection clock orderId clientId symbol side reason =
      (s.publishRejection clock orderId clientId symbol side reason).renumber ρ currentId := by
  simp [publishRejection, renumber, Event.rename]

theorem renumber_publishExecution (order : Order P) (action : String) :
    (s.renumber ρ currentId).publish (.execution order action) =
      (s.publish (.execution order action)).renumber ρ currentId := by
  simp [publish, emit, renumber, Event.rename]

theorem renumber_publishTrade (trade : Trade P) (buyOrder sellOrder : Order P) :
    (s.renumber ρ currentId).publish (.trade (trade.rename ρ) buyOrder sellOrder) =
      (s.publish (.trade trade buyOrder sellOrder)).renumber ρ currentId := by
  simp [publish, emit, renumber, Event.rename]

theorem renumber_saveOrder (order : Order P) :
    (s.renumber ρ currentId).enqueue (.saveOrder order) =
      (s.enqueue (.saveOrder order)).renumber ρ currentId := by
  simp [enqueue, emit, renumber, Event.rename]

theorem renumber_updateOrder (order : Order P) :
    (s.renumber ρ currentId).enqueue (.updateOrder order) =
      (s.enqueue (.updateOrder order)).renumber ρ currentId := by
  simp [enqueue, emit, renumber, Event.rename]

theorem renumber_removeOrder (id : OrderID) :
    (s.renumber ρ currentId).enqueue (.removeOrder id) =
      (s.enqueue (.removeOrder id)).renumber ρ currentId := by
  simp [enqueue, emit, renumber, Event.rename]

theorem renumber_retire (id : OrderID) :
    (s.renumber ρ currentId).retire id = (s.retire id).renumber ρ currentId := by
  simp [retire, renumber, Event.rename]

theorem renumber_retireIf (q : Prop) [Decidable q] (id : OrderID) :
    (if q then (s.renumber ρ currentId).retire id else s.renumber ρ currentId) =
      (if q then s.retire id else s).renumber ρ currentId := by
  rw [renumber_retire, ← apply_ite (renumber ρ currentId)]

theorem renumber_postTradeUpdate (trade : Trade P) :
    (s.renumber ρ currentId).postTradeUpdate (trade.rename ρ) =
      (s.postTradeUpdate trade).renumber ρ currentId := by
  simp [postTradeUpdate, enqueue, emit, renumber, Event.rename]

theorem renumber_withManager (manager : OrderManager P) :
    (s.renumber ρ currentId).withManager manager =
      (s.withManager manager).renumber ρ currentId := rfl

theorem renumber_cancelInBook (id : OrderID) :
    (s.renumber ρ currentId).cancelInBook clock id =
      (s.cancelInBook clock id).map fun r => (r.1, r.2.renumber ρ currentId) := by
  simp only [cancelInBook, renumber_orderManager, renumber_orderBook, renumber_ticks]
  cases s.orderBook.cancelOrder s.orderManager id (clock s.ticks) with
  | none => rfl
  | some r =>
      obtain ⟨orderBook, refresh⟩ := r
      cases refresh with
      | none => rfl
      | some refresh => simp [renumber, Event.rename]

theorem renumber_bookTrade (trade : Trade P) :
    (s.renumber ρ currentId).bookTrade (trade.rename ρ) =
      (s.bookTrade trade).map (renumber ρ currentId) := by
  unfold bookTrade
  have hbuy : (trade.rename ρ).buyOrderId = trade.buyOrderId := rfl
  have hsell : (trade.rename ρ).sellOrderId = trade.sellOrderId := rfl
  rw [renumber_orderManager, hbuy, hsell]
  cases s.orderManager.getOrderById trade.buyOrderId with
  | none => rfl
  | some buyOrder =>
      cases s.orderManager.getOrderById trade.sellOrderId with
      | none => rfl
      | some sellOrder =>
          simp only [renumber_updateOrder, renumber_publishTrade, renumber_retire,
            ← apply_ite (renumber ρ currentId), renumber_orderManager]
          generalize (if buyOrder.remainingQuantity = 0 then
            (((s.enqueue (.updateOrder buyOrder)).enqueue (.updateOrder sellOrder)).publish
              (.trade trade buyOrder sellOrder)).retire buyOrder.coreOrderId
            else ((s.enqueue (.updateOrder buyOrder)).enqueue (.updateOrder sellOrder)).publish
              (.trade trade buyOrder sellOrder)) = t
          cases t.orderManager.deref trade.sellOrderId with
          | none => rfl
          | some sellOrder => rfl

theorem renumber_bookTrades {postTrade : Partition P → Trade P → Partition P}
    (hpost : ∀ s trade, postTrade (renumber ρ currentId s) (trade.rename ρ) =
      (postTrade s trade).renumber ρ currentId) (trades : List (Trade P)) :
    bookTrades postTrade (s.renumber ρ currentId) (trades.map (Trade.rename ρ)) =
      (bookTrades postTrade s trades).map (renumber ρ currentId) := by
  induction trades generalizing s with
  | nil => rfl
  | cons trade trades ih =>
      rw [List.map_cons, bookTrades, bookTrades, hpost, renumber_bookTrade]
      cases (postTrade s trade).bookTrade trade with
      | none => rfl
      | some t => exact ih t

section Handlers

variable [PriceArith P]

theorem renumber_insertIfOpen (ptr : OrderPtr) :
    (s.renumber ρ currentId).insertIfOpen ptr =
      (s.insertIfOpen ptr).map (renumber ρ currentId) := by
  simp only [insertIfOpen, insertInBook, renumber_orderManager, renumber_orderBook]
  cases s.orderManager.getOrderById ptr with
  | none => rfl
  | some order =>
      dsimp only
      split_ifs
      · cases s.orderBook.insertOrder s.orderManager ptr with
        | none => rfl
        | some r => simp [renumber, Event.rename]
      · rfl

theorem renumber_resume (trades : List (Trade P)) (cmd : Command P) :
    (s.renumber ρ currentId).resume (trades.map (Trade.rename ρ)) cmd =
      (s.resume trades cmd).map (renumber ρ currentId) := by
  cases cmd with
  | newOrder c =>
      simp only [resume]
      rw [renumber_bookTrades ρ currentId s fun s trade => renumber_postTradeUpdate ..]
      cases bookTrades postTradeUpdate s trades with
      | none => rfl
      | some t =>
          have hretire : ∀ u : Partition P, (pure (if c.order.orderType = .market ∧
              (u.renumber ρ currentId).orderManager.containsOrderById c.order.coreOrderId then
                (u.renumber ρ currentId).retire c.order.coreOrderId
              else u.renumber ρ currentId) : Option (Partition P)) =
                some ((if c.order.orderType = .market ∧
                  u.orderManager.containsOrderById c.order.coreOrderId then
                    u.retire c.order.coreOrderId else u).renumber ρ currentId) := fun u =>
            congrArg some (renumber_retireIf ρ currentId u _ _)
          simp only [Option.map_some, Option.bind_eq_bind, Option.bind_some,
            renumber_insertIfOpen, hretire]
          by_cases hlimit : c.order.orderType = .limit
          · simp only [if_pos hlimit]
            cases t.insertIfOpen c.order.coreOrderId with
            | none => rfl
            | some u => exact hretire u
          · simp only [if_neg hlimit]
            rfl
  | cancelOrder c => rfl
  | modifyOrder c =>
      simp only [resume]
      rw [renumber_bookTrades ρ currentId s fun s trade => rfl]
      cases bookTrades (fun s _ => s) s trades with
      | none => rfl
      | some t =>
          simp only [Option.map_some, Option.bind_eq_bind, Option.bind_some,
            renumber_insertIfOpen]
          cases t.insertIfOpen c.orderId with
          | none => rfl
          | some u =>
              simp only [Option.map_some, Option.bind_some, renumber_orderManager]
              cases u.orderManager.getOrderById c.orderId with
              | none => rfl
              | some order =>
                  simp only [renumber_retireIf, Option.pure_def, Option.map_some]

theorem renumber_matchCall (cmd : Command P) :
    (s.renumber ρ currentId).matchCall clock cmd =
      (s.matchCall clock cmd).map fun call => (call.1.renumber ρ currentId, call.2) := by
  cases cmd with
  | newOrder c =>
      simp only [matchCall, renumber_orderManager, renumber_orderBook]
      cases RiskManager.preCheck s.orderManager c.order s.orderBook with
      | none => rfl
      | some passed =>
          cases passed with
          | false => rfl
          | true =>
              cases s.orderManager.addOrder c.order with
              | mk added manager =>
                  cases added with
                  | false => rfl
                  | true =>
                      simp [renumber_withManager, renumber_saveOrder, renumber_publishExecution]
  | cancelOrder c => rfl
  | modifyOrder c =>
      simp only [matchCall, renumber_orderManager, renumber_cancelInBook]
      cases s.orderManager.getOrderById c.orderId with
      | none => rfl
      | some old =>
          cases s.cancelInBook clock c.orderId with
          | none => rfl
          | some r =>
              simp only [Option.map_some, Option.bind_eq_bind, Option.bind_some,
                renumber_removeOrder, renumber_withManager, renumber_orderManager,
                renumber_saveOrder, renumber_publishExecution]
              cases (r.2.enqueue (.removeOrder c.orderId)).orderManager.modify c.orderId
                  fun order => ((order.setPrice c.newPrice).setOriginalQuantity
                    c.newQuantity).setStatus .new with
              | none => rfl
              | some manager =>
                  simp only [Option.bind_some]
                  cases ((r.2.enqueue (.removeOrder c.orderId)).withManager
                      manager).orderManager.deref c.orderId with
                  | none => rfl
                  | some order => rfl

omit [PriceArith P] in
theorem renumber_processCancelOrder (c : CancelOrder) :
    processCancelOrder clock c (s.renumber ρ currentId) =
      (processCancelOrder clock c s).map (renumber ρ currentId) := by
  simp only [processCancelOrder, renumber_orderManager, renumber_cancelInBook]
  cases s.orderManager.getOrderById c.orderId with
  | none => exact congrArg some (renumber_publishRejection ..)
  | some old =>
      cases s.cancelInBook clock c.orderId with
      | none => rfl
      | some r =>
          simp only [Option.map_some, Option.bind_eq_bind, Option.bind_some,
            renumber_orderManager]
          cases r.2.orderManager.deref c.orderId with
          | none => rfl
          | some order =>
              simp only [Option.bind_some, renumber_publishExecution, renumber_retire,
                renumber_publishRejection]
              split_ifs <;> rfl

/-- A command that does not reach the matcher. -/
theorem renumber_processCommand {cmd : Command P} (hcall : s.matchCall clock cmd = none) :
    (s.renumber ρ currentId).processCommand clock cmd =
      (s.processCommand clock cmd).map (renumber ρ currentId) := by
  cases cmd with
  | newOrder c =>
      simp only [processCommand, processNewOrder, renumber_orderManager, renumber_orderBook]
      cases hpassed : RiskManager.preCheck s.orderManager c.order s.orderBook with
      | none => rfl
      | some passed =>
          cases passed with
          | false => exact congrArg some (renumber_publishRejection ..)
          | true =>
              cases hadd : s.orderManager.addOrder c.order with
              | mk added manager =>
                  cases added with
                  | false => rfl
                  | true => simp [matchCall, hpassed, hadd] at hcall
  | cancelOrder c => exact renumber_processCancelOrder ρ currentId s c
  | modifyOrder c =>
      simp only [processCommand, processModifyOrder, renumber_orderManager,
        renumber_cancelInBook]
      cases hold : s.orderManager.getOrderById c.orderId with
      | none => exact congrArg some (renumber_publishRejection ..)
      | some old =>
          cases hcancel : s.cancelInBook clock c.orderId with
          | none => rfl
          | some r =>
              simp only [Option.map_some, Option.bind_eq_bind, Option.bind_some,
                renumber_removeOrder, renumber_orderManager, renumber_withManager]
              cases hmanager : (r.2.enqueue (.removeOrder c.orderId)).orderManager.modify c.orderId
                  fun order => ((order.setPrice c.newPrice).setOriginalQuantity
                    c.newQuantity).setStatus .new with
              | none => rfl
              | some manager =>
                  simp only [Option.bind_some]
                  cases horder : ((r.2.enqueue (.removeOrder c.orderId)).withManager
                      manager).orderManager.deref c.orderId with
                  | none => rfl
                  | some order => simp [matchCall, hold, hcancel, hmanager, horder] at hcall

end Handlers

end Partition

/-! ## The handlers only pass their trade ids on -/

namespace Matcher

variable {σ : ℕ → ℕ} {clock : Clock} {incomingOrder restingOrder : OrderPtr}

/-- The second result has the trade ids of other readings of the counter. -/
def Renumbered {β : Type} (σ : ℕ → ℕ) (result result' : MatchState P × β) : Prop :=
  ∃ currentId, result' = (result.1.renumber (renumbering σ) currentId, result.2)

theorem fillFront_renumber (m : MatchState P) (n : ℕ) :
    fillFront clock incomingOrder restingOrder
        ⟨m.manager, σ n, m.ticks, m.trades.map (Trade.rename (renumbering σ))⟩ =
      (fillFront clock incomingOrder restingOrder ⟨m.manager, n, m.ticks, m.trades⟩).map
        (MatchState.renumber (renumbering σ) (σ n + 1)) := by
  unfold fillFront
  cases m.manager.deref incomingOrder with
  | none => rfl
  | some incoming =>
      cases m.manager.deref restingOrder with
      | none => rfl
      | some resting =>
          simp only [Option.bind_eq_bind, Option.bind_some, Option.map_bind, Function.comp_def]
          cases m.manager.modify incomingOrder _ with
          | none => rfl
          | some manager => simp [MatchState.renumber, Trade.rename]

theorem rel_fillFront (m : MatchState P) (currentId : ℕ) :
    Drawing.Rel σ (fun m m' => ∃ currentId, m' = m.renumber (renumbering σ) currentId)
      (fillFrontDrawing clock incomingOrder restingOrder m)
      (fillFrontDrawing clock incomingOrder restingOrder
        (m.renumber (renumbering σ) currentId)) := by
  intro n
  have hfront : fillFront clock incomingOrder restingOrder
      ⟨m.manager, σ n, m.ticks, m.trades.map (Trade.rename (renumbering σ))⟩ = _ :=
    fillFront_renumber m n
  change Drawing.Rel σ _ (.done _) (.done (fillFront clock incomingOrder restingOrder
      ⟨m.manager, σ n, m.ticks, m.trades.map (Trade.rename (renumbering σ))⟩))
  rw [hfront]
  exact Drawing.rel_done_map fun m => ⟨_, rfl⟩

theorem rel_matchLevel (m : MatchState P) (currentId : ℕ) (level : PriceLevel) :
    Drawing.Rel σ (Renumbered σ) (matchLevelDrawing clock incomingOrder m level)
      (matchLevelDrawing clock incomingOrder (m.renumber (renumbering σ) currentId) level) := by
  induction level generalizing m currentId with
  | nil => exact Option.Rel.some ⟨_, rfl⟩
  | cons restingOrder restingLevel ih =>
      apply Drawing.rel_done_bind
      intro incoming
      split_ifs
      · apply (rel_fillFront m currentId).bind
        rintro m _ ⟨currentId, rfl⟩
        apply Drawing.rel_done_bind
        intro resting
        split_ifs
        · exact ih m currentId
        · exact Option.Rel.some ⟨_, rfl⟩
      · exact Option.Rel.some ⟨_, rfl⟩

section Table

variable [LT P] [DecidableLT P]

theorem rel_matchLevels (m : MatchState P) (currentId : ℕ) (restingMap : PriceMap P) :
    Drawing.Rel σ (Renumbered σ) (matchLevelsDrawing clock incomingOrder m restingMap)
      (matchLevelsDrawing clock incomingOrder (m.renumber (renumbering σ) currentId)
        restingMap) := by
  induction restingMap generalizing m currentId with
  | nil => exact Option.Rel.some ⟨_, rfl⟩
  | cons l restingMap ih =>
      apply Drawing.rel_done_bind
      intro incoming
      split_ifs
      · apply (rel_matchLevel m currentId l.2).bind
        rintro ⟨m, restingLevel⟩ _ ⟨currentId, rfl⟩
        apply (ih m currentId).bind
        rintro ⟨m, restingMap⟩ _ ⟨currentId, rfl⟩
        exact Option.Rel.some ⟨_, rfl⟩
      · exact Option.Rel.some ⟨_, rfl⟩

theorem rel_matchTable (m : MatchState P) (currentId : ℕ) (restingMap : PriceMap P) :
    Drawing.Rel σ (Renumbered σ) (matchTableDrawing clock incomingOrder m restingMap)
      (matchTableDrawing clock incomingOrder (m.renumber (renumbering σ) currentId)
        restingMap) := by
  apply (rel_matchLevels m currentId restingMap).bind
  rintro ⟨m, restingMap⟩ _ ⟨currentId, rfl⟩
  apply Drawing.rel_done_bind
  intro manager
  exact Option.Rel.some ⟨_, rfl⟩

theorem rel_matchOrder (m : MatchState P) (currentId : ℕ) (orderBook : OrderBook P) :
    Drawing.Rel σ (Renumbered σ) (matchOrderDrawing clock incomingOrder m orderBook)
      (matchOrderDrawing clock incomingOrder (m.renumber (renumbering σ) currentId)
        orderBook) := by
  apply Drawing.rel_done_bind
  intro incoming
  apply (rel_matchTable m currentId _).bind
  rintro ⟨m, map⟩ _ ⟨currentId, rfl⟩
  exact Option.Rel.some ⟨_, rfl⟩

end Table

end Matcher

namespace Partition

section Handlers

variable [PriceArith P] {σ : ℕ → ℕ} {clock : Clock}

/-- The second partition has the trade ids of other readings of the counter. -/
def Renumbered (σ : ℕ → ℕ) (s s' : Partition P) : Prop :=
  ∃ currentId, s' = s.renumber (renumbering σ) currentId

theorem rel_matchOrder (s : Partition P) (currentId : ℕ) (incomingOrder : OrderPtr) :
    Drawing.Rel σ (fun r r' => ∃ currentId, r' =
        (r.1.renumber (renumbering σ) currentId, r.2.map (Trade.rename (renumbering σ))))
      (s.matchOrderDrawing clock incomingOrder)
      ((s.renumber (renumbering σ) currentId).matchOrderDrawing clock incomingOrder) := by
  let m : MatchState P := {
    manager := s.orderManager, currentId := s.currentId, ticks := s.ticks, trades := [] }
  apply (Matcher.rel_matchOrder m currentId s.orderBook).bind
  rintro ⟨m, orderBook⟩ _ ⟨currentId, rfl⟩
  refine Option.Rel.some ⟨currentId, ?_⟩
  simp [renumber, MatchState.renumber, Event.rename]

theorem rel_processCommand (s : Partition P) (currentId : ℕ) (cmd : Command P) :
    Drawing.Rel σ (Renumbered σ) (s.processCommandDrawing clock cmd)
      ((s.renumber (renumbering σ) currentId).processCommandDrawing clock cmd) := by
  unfold processCommandDrawing
  rw [renumber_matchCall]
  cases hcall : s.matchCall clock cmd with
  | none =>
      simp only [Option.map_none, renumber_processCommand _ _ _ hcall]
      exact Drawing.rel_done_map fun s => ⟨_, rfl⟩
  | some call =>
      apply (rel_matchOrder call.1 currentId call.2).bind
      rintro ⟨t, trades⟩ _ ⟨currentId, rfl⟩
      simp only [renumber_resume]
      exact Drawing.rel_done_map fun s => ⟨_, rfl⟩

/-- What a worker does, but for the trade ids, does not depend on what it reads of the
counter. -/
theorem rel_processAll (s : Partition P) (currentId : ℕ) (commands : List (Command P)) :
    Drawing.Rel σ (Renumbered σ) (processAllDrawing clock s commands)
      (processAllDrawing clock (s.renumber (renumbering σ) currentId) commands) := by
  induction commands generalizing s currentId with
  | nil => exact Option.Rel.some ⟨_, rfl⟩
  | cons cmd commands ih =>
      apply (rel_processCommand s currentId cmd).bind
      rintro s _ ⟨currentId, rfl⟩
      exact ih s currentId

end Handlers

end Partition

/-! ## The numbers on the trades -/

namespace Matcher

variable {clock : Clock} {incomingOrder restingOrder : OrderPtr}

/-- The trades made in between carry the numbers drawn. -/
def Carries (m m' : MatchState P) (ns : List ℕ) : Prop :=
  m'.trades.map Trade.tradeId = m.trades.map Trade.tradeId ++ ns.map (· + 1)

theorem Carries.refl (m : MatchState P) : Carries m m [] := (List.append_nil _).symm

theorem Carries.trans {m m' m'' : MatchState P} {ns ns' : List ℕ} (h : Carries m m' ns)
    (h' : Carries m' m'' ns') : Carries m m'' (ns ++ ns') := by
  unfold Carries at h h' ⊢
  rw [h', h, List.map_append, List.append_assoc]

theorem fillFront_carries {m m' : MatchState P}
    (h : fillFront clock incomingOrder restingOrder m = some m') :
    Carries m m' [m.currentId] := by
  simp only [fillFront, Option.bind_eq_bind, Option.bind_eq_some_iff] at h
  obtain ⟨_, _, _, _, _, _, _, _, _, _, _, _, h⟩ := h
  obtain rfl := Option.some.inj h
  simp [Carries]

theorem ensures_fillFront (m : MatchState P) :
    (fillFrontDrawing clock incomingOrder restingOrder m).Ensures fun ns m' => Carries m m' ns := by
  refine Drawing.ensures_draw ?_
  intro currentId
  refine Drawing.ensures_done ?_
  exact fun m' h => fillFront_carries h

theorem ensures_matchLevel (m : MatchState P) (level : PriceLevel) :
    (matchLevelDrawing clock incomingOrder m level).Ensures fun ns r => Carries m r.1 ns := by
  induction level generalizing m with
  | nil => exact Drawing.ensures_pure (.refl m)
  | cons restingOrder restingLevel ih =>
      refine Drawing.ensures_done_bind ?_
      intro incoming _
      split_ifs
      · refine (ensures_fillFront m).bind ?_
        intro ns m₁ hfront
        refine Drawing.ensures_done_bind ?_
        intro resting _
        split_ifs
        · exact fun ms r hr => hfront.trans (ih m₁ ms r hr)
        · exact Drawing.ensures_pure (hfront.trans (.refl m₁))
      · exact Drawing.ensures_pure (.refl m)

section Table

variable [LT P] [DecidableLT P]

theorem ensures_matchLevels (m : MatchState P) (restingMap : PriceMap P) :
    (matchLevelsDrawing clock incomingOrder m restingMap).Ensures
      fun ns r => Carries m r.1 ns := by
  induction restingMap generalizing m with
  | nil => exact Drawing.ensures_pure (.refl m)
  | cons l restingMap ih =>
      refine Drawing.ensures_done_bind ?_
      intro incoming _
      split_ifs
      · refine (ensures_matchLevel m l.2).bind ?_
        rintro ns ⟨m₁, restingLevel⟩ hlevel
        refine (ih m₁).bind ?_
        rintro ms ⟨m₂, restingMap⟩ hrest
        exact Drawing.ensures_pure (by simpa using Carries.trans hlevel hrest)
      · exact Drawing.ensures_pure (.refl m)

theorem ensures_matchOrder (m : MatchState P) (orderBook : OrderBook P) :
    (matchOrderDrawing clock incomingOrder m orderBook).Ensures
      fun ns r => Carries m r.1 ns := by
  refine Drawing.ensures_done_bind ?_
  intro incoming _
  have htable : ∀ restingMap, (matchTableDrawing clock incomingOrder m restingMap).Ensures
      fun ns r => Carries m r.1 ns := by
    intro restingMap
    refine (ensures_matchLevels m restingMap).bind ?_
    rintro ns ⟨m₁, map⟩ hlevels
    refine Drawing.ensures_done_bind ?_
    intro manager _
    exact Drawing.ensures_pure (by simpa [Carries] using hlevels)
  refine (htable _).bind ?_
  rintro ns ⟨m₁, map⟩ hmatched
  exact Drawing.ensures_pure (by simpa using hmatched)

end Table

end Matcher

namespace Partition

section Handlers

variable [PriceArith P] {clock : Clock}

def tradeIds (s : Partition P) : List TradeID := s.matchedTrades.map Trade.tradeId

omit [PriceArith P] in
theorem Works.tradeIds {s s' : Partition P} (h : Works s s') : s'.tradeIds = s.tradeIds := by
  obtain ⟨events, hjournal, hscoped⟩ := h.journal
  have hnone : events.flatMap Event.matchedTrades = [] :=
    List.flatMap_eq_nil_iff.mpr fun event hevent => (hscoped event hevent).1
  rw [Partition.tradeIds, matchedTrades, hjournal, List.flatMap_append, hnone, List.append_nil]
  rfl

theorem ensures_matchOrder (s : Partition P) (incomingOrder : OrderPtr) :
    (s.matchOrderDrawing clock incomingOrder).Ensures fun ns r =>
      r.1.tradeIds = s.tradeIds ++ ns.map (· + 1) := by
  let m : MatchState P := {
    manager := s.orderManager, currentId := s.currentId, ticks := s.ticks, trades := [] }
  refine (Matcher.ensures_matchOrder m s.orderBook).bind ?_
  rintro ns ⟨m', orderBook⟩ hmatched
  refine Drawing.ensures_pure ?_
  have hids : m'.trades.map Trade.tradeId = ns.map (· + 1) := hmatched
  simp [tradeIds, matchedTrades, Event.matchedTrades, hids]

theorem ensures_processCommand (s : Partition P) (cmd : Command P) :
    (s.processCommandDrawing clock cmd).Ensures fun ns s' =>
      s'.tradeIds = s.tradeIds ++ ns.map (· + 1) := by
  unfold processCommandDrawing
  cases hcall : s.matchCall clock cmd with
  | none =>
      refine Drawing.ensures_done ?_
      intro s' h
      rw [(works_of_no_matchCall hcall h).tradeIds]
      exact (List.append_nil _).symm
  | some call =>
      obtain ⟨t, ptr⟩ := call
      have hbefore : t.tradeIds = s.tradeIds := by
        rw [(works_matchCall hcall).tradeIds]
        cases cmd <;> rfl
      refine (t.ensures_matchOrder ptr).bind ?_
      rintro ns ⟨t', trades⟩ hmatched
      refine Drawing.ensures_done ?_
      intro s' h
      have hmatched' : t'.tradeIds = t.tradeIds ++ ns.map (· + 1) := hmatched
      rw [(works_resume h).tradeIds, hmatched', hbefore, List.append_nil]

/-- The trades of a worker carry the numbers it has drawn, in their order. -/
theorem ensures_processAll (s : Partition P) (commands : List (Command P)) :
    (processAllDrawing clock s commands).Ensures fun ns s' =>
      s'.tradeIds = s.tradeIds ++ ns.map (· + 1) := by
  induction commands generalizing s with
  | nil => exact Drawing.ensures_pure (List.append_nil _).symm
  | cons cmd commands ih =>
      refine (s.ensures_processCommand cmd).bind ?_
      intro ns s₁ hcommand ms s' hrest
      rw [ih s₁ ms s' hrest, hcommand, List.map_append, List.append_assoc]

end Handlers

end Partition

end BetaTrader
