import BetaTrader.Exchange.Execution

/-!
# Orders that stay registered

The registered orders should be those that rest in the book.  A filled order
that the booking loop passes over stays behind in the order manager; this is the
only way in which the two come apart.
-/

namespace BetaTrader

variable {P : Type}

/-- The ids of the orders reported as cancelled. -/
def Event.cancelledIds : Event P → List OrderID
  | .published (.execution order action) =>
      if action = "CANCELED" then [order.coreOrderId] else []
  | _ => []

namespace Partition

open Matcher

/-- The ids of the orders reported as cancelled. -/
def cancelledIds (s : Partition P) : List OrderID := s.journal.flatMap Event.cancelledIds

theorem ignoresAdmission_cancelledIds : IgnoresAdmission (Event.cancelledIds (P := P)) :=
  ⟨fun _ => rfl, fun _ => rfl, fun _ => rfl, fun _ => rfl, fun _ => rfl⟩

/-- Only open limit orders that rest in the book are registered. -/
structure NoZombies (s : Partition P) : Prop where
  resting : ∀ id order, s.orderManager.orderMap id = some order →
    s.orderBook.Contains id ∧ 0 < order.remainingQuantity
  notMarket : ∀ id order, s.orderManager.orderMap id = some order → order.orderType ≠ .market
  cancelled : ∀ id ∈ s.cancelledIds, s.orderManager.orderMap id = none

section Steps

variable [FinitePrice P] {ids : List OrderID} {s s' : Partition P} {order : Order P}
  {cmd : Command P} {clock : Clock}

/-- An order that is gone does not come back. -/
theorem processCommand_gone (hinv : s.Invariant ids) (hcmd : Admissible ids cmd)
    (h : processCommand clock s cmd = some s') {id : OrderID} (hid : id ∈ ids)
    (hgone : s.orderManager.orderMap id = none) : s'.orderManager.orderMap id = none := by
  rcases processCommand_cases hinv.sound hcmd clock with
    ⟨_, _, _, _, _, heq⟩ | ⟨c, _, _, _, _, heq⟩ | ⟨order, hincoming, heq⟩
  · rw [← Option.some.inj (heq.symm.trans h)]
    exact hgone
  · rw [← Option.some.inj (heq.symm.trans h), retire_orderManager,
      OrderManager.removeOrderById_orderMap]
    split_ifs
    · rfl
    · exact hgone
  · rw [← Option.some.inj (heq.symm.trans h)]
    have hne : id ≠ order.coreOrderId := by
      rintro rfl
      rcases incomingOrder_cases hinv.sound hcmd hincoming with
        ⟨_, _, _, _, _, hfresh, _⟩ | ⟨_, _, _, _, _, hold, _⟩
      · exact hfresh hid
      · simp [hgone] at hold
    rcases executed_other hinv.sound hcmd hincoming clock hne with ⟨_, hsame⟩ | ⟨f, _, _, hold, _⟩
    · exact hsame.trans hgone
    · simp [hgone] at hold

/-- Orders reported as cancelled are gone. -/
def CancelledGone (ids : List OrderID) (s : Partition P) : Prop :=
  ∀ id ∈ s.cancelledIds, id ∈ ids ∧ s.orderManager.orderMap id = none

theorem cancelledGone_step (hinv : s.Invariant ids) (hcmd : Admissible ids cmd)
    (hgone : CancelledGone ids s) (h : processCommand clock s cmd = some s') :
    CancelledGone (ids ++ cmd.newIds) s' := by
  have hkeep : ∀ id ∈ s.cancelledIds,
      id ∈ ids ++ cmd.newIds ∧ s'.orderManager.orderMap id = none := fun id hid =>
    ⟨List.mem_append_left _ (hgone id hid).1,
      processCommand_gone hinv hcmd h (hgone id hid).1 (hgone id hid).2⟩
  rcases processCommand_cases hinv.sound hcmd clock with
    ⟨_, _, _, _, _, heq⟩ | ⟨c, order, rfl, horder, _, heq⟩ | ⟨order, hincoming, heq⟩
  · intro id hid
    obtain rfl := Option.some.inj (heq.symm.trans h)
    exact hkeep id (by simpa [cancelledIds, publishRejection, Event.cancelledIds] using hid)
  · intro id hid
    obtain rfl := Option.some.inj (heq.symm.trans h)
    rw [cancelledIds, ignoresAdmission_cancelledIds.cancelled, List.mem_append] at hid
    rcases hid with hid | hid
    · exact hkeep id hid
    · have hid : id = order.coreOrderId := by simpa [Event.cancelledIds] using hid
      obtain ⟨horderId, _, hmem⟩ := hinv.managed _ order horder
      rw [hid, horderId]
      exact ⟨List.mem_append_left _ hmem, OrderManager.removeOrderById_orderMap_self _ _⟩
  · intro id hid
    obtain rfl := Option.some.inj (heq.symm.trans h)
    have hpost : ∀ trade, (postEvents cmd trade).flatMap Event.cancelledIds = [] := by
      cases cmd <;> exact fun _ => rfl
    have hfill : ∀ g trade, (fillEvents ((s.prepared clock order cmd).served order) g trade).flatMap
        Event.cancelledIds = [] := by
      intro g trade
      simp [fillEvents, bookedEvents, Event.cancelledIds, List.flatMap_map]
    rw [cancelledIds, ignoresAdmission_cancelledIds.executed,
      flatMap_bookingEvents_eq_nil _ hpost hfill, List.append_nil, List.mem_append] at hid
    exact hkeep id (hid.resolve_right List.not_mem_nil)

/-- The incoming order stays open, or it fills one resting order at most. -/
def FillsOne (s : Partition P) (cmd : Command P) : Prop :=
  ∀ order ∈ s.incomingOrder cmd,
    Allocation.total Order.openQuantity (s.crossing order) < order.openQuantity ∨
      ∀ first second rest, s.crossing order = first :: second :: rest →
        order.openQuantity < first.openQuantity + second.openQuantity

/-- The loop books every fill that exhausts its order exactly when all but the
first order of the queue outlast the match. -/
theorem exhausted_booked_iff (hinv : s.Sound ids) (hcmd : Admissible ids cmd)
    (h : s.incomingOrder cmd = some order) :
    (∀ f ∈ s.fills order, f.2 = f.1.openQuantity →
        f ∈ bookedFills (s.served order) (s.fills order)) ↔ s.FillsOne cmd := by
  have hlive : Live s.orderManager (Levels.queue (crossingLevels order (s.otherSide order))) :=
    (hinv.book _).live.mono fun _ => mem_queue_of_mem_crossing
  have htail : (∀ f ∈ (s.fills order).drop 1, f.2 < f.1.openQuantity) ↔ _ :=
    Allocation.tail_fills_lt_iff hlive.openQuantity_pos
  have hcond : s.FillsOne cmd ↔
      Allocation.total Order.openQuantity (s.crossing order) < order.openQuantity ∨
        ∀ first second rest, s.crossing order = first :: second :: rest →
          order.openQuantity < first.openQuantity + second.openQuantity := by
    simp [FillsOne, h]
  have hzero : (s.served order).openQuantity = _ := served_openQuantity
  rw [hcond, bookedFills]
  split_ifs with hserved
  · rw [Order.remainingQuantity_eq_zero_iff] at hserved
    refine Iff.trans ?_ (htail.trans (or_iff_right (by omega)).symm)
    have hnodup : (s.fills order).Nodup := (nodup_touchedIds_fills hinv hcmd h).of_map _
    rw [← List.take_append_drop 1 (s.fills order)] at hnodup
    obtain ⟨_, _, hdisj⟩ := List.nodup_append.mp hnodup
    constructor
    · intro hbooked f hf
      have hmem := List.mem_of_mem_drop hf
      refine lt_of_le_of_ne (mem_fills hinv hcmd h hmem).2.2.2 fun hall => ?_
      exact hdisj f (hbooked f hmem hall) f hf rfl
    · intro hless f hf hall
      rw [← List.take_append_drop 1 (s.fills order), List.mem_append] at hf
      exact hf.resolve_right fun hdrop => (hless f hdrop).ne hall
  · rw [Order.remainingQuantity_eq_zero_iff] at hserved
    exact iff_of_true (fun f hf _ => hf) (Or.inl (by omega))

theorem noZombies_executed (hinv : s.Sound ids) (hcmd : Admissible ids cmd)
    (h : s.incomingOrder cmd = some order)
    (hzombies : ∀ id order', s.orderManager.orderMap id = some order' →
      s.orderBook.Contains id ∧ 0 < order'.remainingQuantity) :
    (∀ id order', (s.executed clock order cmd).orderManager.orderMap id = some order' →
      (s.executed clock order cmd).orderBook.Contains id ∧ 0 < order'.remainingQuantity) ↔
      s.FillsOne cmd := by
  rw [← exhausted_booked_iff hinv hcmd h]
  constructor
  · intro hresting f hf hall
    by_contra hnot
    obtain ⟨hget, hne, _, hle⟩ := mem_fills hinv hcmd h hf
    rcases executed_other hinv hcmd h clock hne with ⟨huntouched, _⟩ | ⟨g, hg, heq, _, hcases⟩
    · exact huntouched (List.mem_map_of_mem hf)
    · obtain rfl := fills_inj hinv hcmd h hg hf heq
      rcases hcases with ⟨hbooked, _⟩ | ⟨_, hnew⟩
      · exact hnot hbooked
      · have hpos := (hresting _ _ hnew).2
        have hopen := Order.openQuantity_giveFill hle
        rw [Order.remainingQuantity_pos_iff] at hpos
        omega
  · intro hbooked id order' horder'
    rw [executed_contains hinv hcmd h clock]
    by_cases hid : id = order.coreOrderId
    · subst hid
      rw [executed_incoming hinv hcmd h clock] at horder'
      rw [if_pos rfl]
      split_ifs at horder' with hremains
      rw [← Option.some.inj horder']
      exact ⟨hremains, Order.remainingQuantity_pos_iff.mpr hremains.1⟩
    · rw [if_neg hid]
      rcases executed_other hinv hcmd h clock hid with
        ⟨huntouched, hsame⟩ | ⟨f, hf, rfl, hold, ⟨_, _, hnone⟩ | ⟨hnot, hnew⟩⟩
      · obtain ⟨hcontains, hpos⟩ := hzombies id order' (hsame ▸ horder')
        exact ⟨⟨hcontains, fun f hf heq => (huntouched (heq ▸ List.mem_map_of_mem hf)).elim⟩, hpos⟩
      · simp [hnone] at horder'
      · obtain ⟨_, _, _, hle⟩ := mem_fills hinv hcmd h hf
        have hlt : f.2 < f.1.openQuantity :=
          lt_of_le_of_ne hle fun hall => hnot ⟨hbooked f hf hall, hall⟩
        have hopen := Order.openQuantity_giveFill hle
        rw [← Option.some.inj (hnew.symm.trans horder'), Order.remainingQuantity_pos_iff]
        refine ⟨⟨(hzombies _ _ hold).1, fun g hg heq => ?_⟩, by omega⟩
        exact fills_inj hinv hcmd h hg hf heq ▸ hlt

/-- The registered orders stay the resting ones exactly if the command fills one
resting order at most or its own order stays open. -/
theorem registered_resting_step (hinv : s.Sound ids) (hcmd : Admissible ids cmd)
    (hresting : ∀ id order, s.orderManager.orderMap id = some order →
      s.orderBook.Contains id ∧ 0 < order.remainingQuantity)
    (h : processCommand clock s cmd = some s') :
    (∀ id order, s'.orderManager.orderMap id = some order →
      s'.orderBook.Contains id ∧ 0 < order.remainingQuantity) ↔ s.FillsOne cmd := by
  rcases processCommand_cases hinv hcmd clock with
    ⟨hincoming, _, _, _, _, heq⟩ | ⟨c, order, rfl, horder, _, heq⟩ | ⟨order, hincoming, heq⟩
  · obtain rfl := Option.some.inj (heq.symm.trans h)
    exact iff_of_true hresting (by simp [FillsOne, hincoming])
  · obtain rfl := Option.some.inj (heq.symm.trans h)
    refine iff_of_true (fun id order' horder' => ?_) (by simp [FillsOne, incomingOrder])
    obtain ⟨hne, horder'⟩ := OrderManager.orderMap_of_removeOrderById horder'
    obtain ⟨hcontains, hpos⟩ := hresting id order' horder'
    exact ⟨OrderBook.contains_without.mpr ⟨hne, hcontains⟩, hpos⟩
  · obtain rfl := Option.some.inj (heq.symm.trans h)
    exact noZombies_executed hinv hcmd hincoming hresting

/-- A command keeps the registered orders the resting ones exactly when it fills
one resting order at most or stays open itself. -/
theorem noZombies_step (hinv : s.Invariant ids) (hcmd : Admissible ids cmd)
    (hgone : CancelledGone ids s) (hzombies : s.NoZombies)
    (h : processCommand clock s cmd = some s') : s'.NoZombies ↔ s.FillsOne cmd := by
  obtain ⟨s'', hs'', hinv'⟩ := processCommand_invariant hinv hcmd clock
  obtain rfl := Option.some.inj (hs''.symm.trans h)
  have hgone' := cancelledGone_step hinv hcmd hgone h
  have hparts : s''.NoZombies ↔ ∀ id order, s''.orderManager.orderMap id = some order →
      s''.orderBook.Contains id ∧ 0 < order.remainingQuantity := by
    refine ⟨fun hz => hz.resting, fun hresting => ⟨hresting, fun id order horder => ?_,
      fun id hid => (hgone' id hid).2⟩⟩
    rw [(hinv'.managed id order horder).2.1]
    decide
  rw [hparts]
  exact registered_resting_step hinv.sound hcmd hzombies.resting h

omit [FinitePrice P] in
theorem noZombies_init (symbol : Instrument) (currentId : TradeID) :
    (init symbol currentId : Partition P).NoZombies := by
  constructor <;> simp [init, cancelledIds]

end Steps

/-- The registered orders are the resting ones after every command exactly when
every command fills one resting order at most or leaves its own order open. -/
theorem registered_resting_iff [FinitePrice P] {commands : List (Command P)}
    (h : Valid commands) (clock : Clock) (symbol : Instrument) (currentId : TradeID) :
    ∃ s, processAll clock (init symbol currentId) commands = some s ∧
      (AfterEvery clock NoZombies (init symbol currentId) commands ↔
        Meets clock FillsOne (init symbol currentId) commands) := by
  refine afterEvery_iff_meets clock (fun history s => CancelledGone (newIds history) s)
    NoZombies FillsOne ?_ (noZombies_init symbol currentId) ?_ h
  · intro id hid
    simp [init, cancelledIds] at hid
  · intro history s cmd s' hinv hcmd hgone hs'
    refine ⟨?_, fun hzombies => noZombies_step hinv hcmd hgone hzombies hs'⟩
    rw [newIds_concat]
    exact cancelledGone_step hinv hcmd hgone hs'

theorem registered_resting_iff_sample :
    ∃ s, processAll (fun _ => 0) (init .eurusd 0) Sample.commands = some s ∧
      (AfterEvery (fun _ => 0) NoZombies (init .eurusd 0) Sample.commands ↔
        Meets (fun _ => 0) FillsOne (init .eurusd 0) Sample.commands) :=
  registered_resting_iff Sample.valid_commands (fun _ => 0) .eurusd 0

/-- The second sell is filled, and stays registered. -/
theorem filled_sell_registered :
    Valid Sample.twoFills ∧
      ∃ s, processAll (fun _ => 0) (init .eurusd 0) Sample.twoFills = some s ∧ ¬s.NoZombies := by
  refine ⟨by decide, ?_⟩
  have hrun : (processAll (fun _ => 0) (init .eurusd 0) Sample.twoFills).map
      (fun s => (s.orderManager.orderMap 2).map Order.remainingQuantity) = some (some 0) := by
    decide +kernel
  obtain ⟨s, hs, hsell⟩ := Option.map_eq_some_iff.mp hrun
  obtain ⟨order, horder, hzero⟩ := Option.map_eq_some_iff.mp hsell
  refine ⟨s, hs, fun hzombies => ?_⟩
  have hpos := (hzombies.resting 2 order horder).2
  rw [hzero] at hpos
  exact absurd hpos (by decide)

end Partition

end BetaTrader
