import BetaTrader.Exchange.Journal
import BetaTrader.Exchange.PartitionInvariant

/-!
# What executing an order changes

The partition after a command that takes an order to the matcher, order by order
and in terms of the partition before it: the order itself, the orders that its
fills reach, and all others.
-/

namespace BetaTrader

namespace Partition

open Matcher

variable {P : Type} [PriceArith P] {ids : List OrderID} {s : Partition P} {order : Order P}
  {cmd : Command P}

/-- What is not open of the incoming order after a match is what its fills take. -/
theorem sum_fills_served (h : s.incomingOrder cmd = some order) :
    ((s.fills order).map Prod.snd).sum + (s.served order).openQuantity =
      (s.served order).originalQuantity.toNat := by
  have hsum : ((s.fills order).map Prod.snd).sum =
      min order.openQuantity (Allocation.total Order.openQuantity (s.crossing order)) :=
    Allocation.sum_fills _ _
  have hopen : (s.served order).openQuantity = _ := served_openQuantity
  have hnew : order.openQuantity = order.originalQuantity.toNat :=
    congrArg UInt64.toNat (incomingOrder_quantity h).1
  rw [served_originalQuantity]
  omega

section Orders

variable (hinv : s.Sound ids) (hcmd : Admissible ids cmd)
  (h : s.incomingOrder cmd = some order) (clock : Clock)

include hinv hcmd h

theorem prepared_remains : (s.prepared clock order cmd).Remains order ↔ s.Remains order := by
  rw [Remains, Remains, prepared_served hinv hcmd h]

/-- The incoming order stays registered if it comes to rest. -/
theorem executed_incoming :
    (s.executed clock order cmd).orderManager.orderMap order.coreOrderId =
      if s.Remains order then some (s.served order) else none := by
  have hincoming : (s.executed clock order cmd).orderManager.orderMap order.coreOrderId = _ :=
    afterAll_incoming (hinv.prepared hcmd h clock).matchable
  simp only [hincoming, prepared_remains hinv hcmd h, prepared_served hinv hcmd h]

/-- A fill finds the order as it is registered. -/
theorem mem_fills {f : Order P × ℕ} (hf : f ∈ s.fills order) :
    s.orderManager.orderMap f.1.coreOrderId = some f.1 ∧ f.1.coreOrderId ≠ order.coreOrderId ∧
      0 < f.2 ∧ f.2 ≤ f.1.openQuantity := by
  have hmatchable := (hinv.prepared hcmd h fun _ => 0).matchable
  rw [← prepared_fills hinv hcmd h fun _ => 0] at hf
  obtain ⟨hget, _, hpos, hle⟩ := mem_fillsOn hmatchable hf
  have hne : f.1.coreOrderId ≠ order.coreOrderId := fun heq =>
    incoming_notMem_touchedIds hmatchable (heq ▸ List.mem_map_of_mem hf)
  rw [prepared_orderManager h, OrderManager.write_orderMap_of_ne _ _ hne] at hget
  exact ⟨hget, hne, hpos, hle⟩

/-- The match leaves an order that has traded filled or partly filled. -/
theorem served_status (hfills : s.fills order ≠ []) : (s.served order).status =
    if (s.served order).openQuantity = 0 then .filled else .partiallyFilled := by
  have hsum := sum_fills_served h
  have hpos : 0 < ((s.fills order).map Prod.snd).sum := by
    obtain ⟨f, fs, heq⟩ := List.exists_cons_of_ne_nil hfills
    have hf := (mem_fills hinv hcmd h (heq ▸ List.mem_cons_self)).2.2.1
    rw [heq, List.map_cons, List.sum_cons]
    omega
  have hne : (s.served order).originalQuantity ≠ (s.served order).remainingQuantity := by
    intro heq
    rw [heq, ← Order.openQuantity] at hsum
    omega
  have hstatus : (afterFills order (s.fills order)).status = .partiallyFilled :=
    afterFills_status hfills
  have hserved : (s.served order).status = if (s.served order).remainingQuantity = 0 then .filled
      else if (s.served order).orderType = .market ∧
        (s.served order).originalQuantity = (s.served order).remainingQuantity then .cancelled
      else (afterFills order (s.fills order)).status := rfl
  simp only [hserved, hstatus, hne, and_false, if_false, Order.remainingQuantity_eq_zero_iff]

theorem nodup_touchedIds_fills : (touchedIds (s.fills order)).Nodup := by
  rw [← prepared_fills hinv hcmd h fun _ => 0]
  exact nodup_touchedIds (hinv.prepared hcmd h fun _ => 0).matchable

/-- There is one fill for each order. -/
theorem fills_inj {f g : Order P × ℕ} (hf : f ∈ s.fills order) (hg : g ∈ s.fills order)
    (heq : f.1.coreOrderId = g.1.coreOrderId) : f = g :=
  List.inj_on_of_nodup_map (nodup_touchedIds_fills hinv hcmd h) hf hg heq

/-- The order of a fill is retired if the fill is booked and takes all it has. -/
theorem fill_mem_retiredIds {f : Order P × ℕ} (hf : f ∈ s.fills order) :
    f.1.coreOrderId ∈ retiredIds (s.served order) (s.fills order) ↔
      f ∈ bookedFills (s.served order) (s.fills order) ∧ f.2 = f.1.openQuantity := by
  obtain ⟨_, hne, _, hle⟩ := mem_fills hinv hcmd h hf
  have hopen := Order.openQuantity_giveFill hle
  rw [mem_retiredIds, served_coreOrderId]
  constructor
  · rintro (⟨heq, _⟩ | ⟨g, hg, heq, hzero⟩)
    · exact (hne heq).elim
    · obtain rfl := fills_inj hinv hcmd h hf ((bookedFills_prefix_self _ _).subset hg) heq
      rw [Order.remainingQuantity_eq_zero_iff] at hzero
      exact ⟨hg, by omega⟩
  · rintro ⟨hbooked, hall⟩
    refine Or.inr ⟨f, hbooked, rfl, ?_⟩
    rw [Order.remainingQuantity_eq_zero_iff]
    omega

/-- Another order is left alone, or a fill has reached it; then it is gone if
the fill was booked and took all the order had. -/
theorem executed_other {id : OrderID} (hid : id ≠ order.coreOrderId) :
    (id ∉ touchedIds (s.fills order) ∧
      (s.executed clock order cmd).orderManager.orderMap id = s.orderManager.orderMap id) ∨
    ∃ f ∈ s.fills order, f.1.coreOrderId = id ∧ s.orderManager.orderMap id = some f.1 ∧
      ((f ∈ bookedFills (s.served order) (s.fills order) ∧ f.2 = f.1.openQuantity ∧
        (s.executed clock order cmd).orderManager.orderMap id = none) ∨
      (¬(f ∈ bookedFills (s.served order) (s.fills order) ∧ f.2 = f.1.openQuantity) ∧
        (s.executed clock order cmd).orderManager.orderMap id = some (f.1.giveFill f.2))) := by
  have hall : (s.executed clock order cmd).orderManager.orderMap id = _ := afterAll_other hid
  rw [prepared_served hinv hcmd h, prepared_fills hinv hcmd h] at hall
  have hmatched := afterMatch_other clock (hinv.prepared hcmd h clock).matchable hid
  rw [prepared_fills hinv hcmd h, prepared_orderManager h,
    OrderManager.write_orderMap_of_ne _ _ hid] at hmatched
  rcases hmatched with ⟨huntouched, hsame⟩ | ⟨f, hf, rfl, hold, hnew⟩
  · refine Or.inl ⟨huntouched, ?_⟩
    have hnot : id ∉ retiredIds (s.served order) (s.fills order) := by
      rw [mem_retiredIds, served_coreOrderId]
      rintro (⟨heq, _⟩ | ⟨g, hg, rfl, _⟩)
      · exact hid heq
      · exact huntouched (List.mem_map_of_mem ((bookedFills_prefix_self _ _).subset hg))
    rw [hall, if_neg hnot, hsame]
  · refine Or.inr ⟨f, hf, rfl, hold, ?_⟩
    by_cases hretired : f ∈ bookedFills (s.served order) (s.fills order) ∧ f.2 = f.1.openQuantity
    · refine Or.inl ⟨hretired.1, hretired.2, ?_⟩
      rw [hall, if_pos ((fill_mem_retiredIds hinv hcmd h hf).mpr hretired)]
    · refine Or.inr ⟨hretired, ?_⟩
      rw [hall, if_neg fun hmem => hretired ((fill_mem_retiredIds hinv hcmd h hf).mp hmem), hnew]

/-- What is registered after an order has been executed: what is left of it, the
others, and those that a fill has reached. -/
theorem executed_registered {id : OrderID} {order' : Order P}
    (horder' : (s.executed clock order cmd).orderManager.orderMap id = some order') :
    (id = order.coreOrderId ∧ s.Remains order ∧ order' = s.served order) ∨
    (id ≠ order.coreOrderId ∧ s.orderManager.orderMap id = some order') ∨
    (id ≠ order.coreOrderId ∧ ∃ f ∈ s.fills order, s.orderManager.orderMap id = some f.1 ∧
      order' = f.1.giveFill f.2) := by
  by_cases hid : id = order.coreOrderId
  · rw [hid, executed_incoming hinv hcmd h] at horder'
    split_ifs at horder' with hremains
    exact Or.inl ⟨hid, hremains, (Option.some.inj horder').symm⟩
  · rcases executed_other hinv hcmd h clock hid with
      ⟨_, hsame⟩ | ⟨f, hf, _, hold, ⟨_, _, hgone⟩ | ⟨_, hnew⟩⟩
    · exact Or.inr (Or.inl ⟨hid, hsame ▸ horder'⟩)
    · simp [hgone] at horder'
    · exact Or.inr (Or.inr ⟨hid, f, hf, hold, Option.some.inj (horder'.symm.trans hnew)⟩)

/-- The book holds the incoming order if it comes to rest, and of the others
those no fill took everything from. -/
theorem executed_contains {id : OrderID} :
    (s.executed clock order cmd).orderBook.Contains id ↔
      if id = order.coreOrderId then s.Remains order
      else s.orderBook.Contains id ∧
        ∀ f ∈ s.fills order, f.1.coreOrderId = id → f.2 < f.1.openQuantity := by
  have hadmitted := hinv.prepared hcmd h clock
  have hafter : ((s.prepared clock order cmd).orderBook.afterMatch
      (s.prepared clock order cmd).orderManager order).Contains id ↔
        (s.prepared clock order cmd).orderBook.Contains id ∧
          ∀ f ∈ s.fills order, f.1.coreOrderId = id → f.2 < f.1.openQuantity := by
    rw [← prepared_fills hinv hcmd h clock]
    exact hadmitted.book.contains_afterMatch hadmitted.incoming_mem hadmitted.notMem
  have hbook : (s.executed clock order cmd).orderBook = _ := afterAll_orderBook
  simp only [hbook, prepared_remains hinv hcmd h, prepared_served hinv hcmd h]
  by_cases hid : id = order.coreOrderId
  · have hnot : ¬((s.prepared clock order cmd).orderBook.afterMatch
        (s.prepared clock order cmd).orderManager order).Contains id := fun hmem =>
      hadmitted.notMem (hid ▸ (hafter.mp hmem).1)
    rw [if_pos hid]
    split_ifs with hremains
    · rw [OrderBook.contains_push, served_coreOrderId]
      exact iff_of_true (Or.inl hid) hremains
    · exact iff_of_false hnot hremains
  · have hwithout :
        (s.prepared clock order cmd).orderBook.Contains id ↔ s.orderBook.Contains id := by
      rw [prepared_orderBook hinv hcmd h]
      exact OrderBook.contains_without.trans (and_iff_right hid)
    rw [if_neg hid, ← hwithout, ← hafter]
    split_ifs
    · rw [OrderBook.contains_push, served_coreOrderId]
      exact or_iff_right hid
    · exact Iff.rfl

end Orders

/-- What has last been seen of an order after a match: the incoming one as it was
served, a touched one with its fill, any other as before. -/
theorem Entered.afterMatch_lastSeen (h : Entered ids s order) (clock : Clock) (id : OrderID) :
    (id = order.coreOrderId ∧
      (s.afterMatch clock order).orderManager.lastSeen id = some (s.served order)) ∨
    (id ≠ order.coreOrderId ∧ id ∉ touchedIds (s.fills order) ∧
      (s.afterMatch clock order).orderManager.lastSeen id = s.orderManager.lastSeen id) ∨
    (id ≠ order.coreOrderId ∧ ∃ f ∈ s.fills order, f.1.coreOrderId = id ∧
      s.orderManager.lastSeen id = some f.1 ∧
      (s.afterMatch clock order).orderManager.lastSeen id = some (f.1.giveFill f.2)) := by
  by_cases hid : id = order.coreOrderId
  · refine Or.inl ⟨hid, ?_⟩
    rw [hid]
    exact OrderManager.lastSeen_of_orderMap matched_incoming
  · refine Or.inr ?_
    have hdestroyed : (s.afterMatch clock order).orderManager.destroyed =
        s.orderManager.destroyed := matched_destroyed
    rcases afterMatch_other clock h.matchable hid with
      ⟨huntouched, hsame⟩ | ⟨f, hf, rfl, hold, hnew⟩
    · refine Or.inl ⟨hid, huntouched, ?_⟩
      rw [OrderManager.lastSeen, hsame, hdestroyed, ← OrderManager.lastSeen]
    · exact Or.inr ⟨hid, f, hf, rfl, OrderManager.lastSeen_of_orderMap hold,
        OrderManager.lastSeen_of_orderMap hnew⟩

/-! ## What has been seen of the orders -/

theorem prepared_lastSeen (h : s.incomingOrder cmd = some order) (clock : Clock) (id : OrderID) :
    (s.prepared clock order cmd).orderManager.lastSeen id =
      if order.coreOrderId = id then some order else s.orderManager.lastSeen id := by
  rw [prepared_orderManager h]
  split_ifs with hid
  · rw [← hid, OrderManager.write_lastSeen_self]
  · exact OrderManager.write_lastSeen_of_ne _ _ (Ne.symm hid)

/-- A command that takes an order to the matcher rewrites that order.  Of all
others it changes the remaining quantity and the status at most, and no other
command changes anything. -/
theorem lastSeen_step {s' : Partition P} {clock : Clock} (hinv : s.Sound ids)
    (hcmd : Admissible ids cmd) (h : processCommand clock s cmd = some s') (id : OrderID) :
    (∃ order qty status, s.incomingOrder cmd = some order ∧ order.coreOrderId = id ∧
      s'.orderManager.lastSeen id = some ((order.setRemainingQuantity qty).setStatus status)) ∨
    ((∀ order, s.incomingOrder cmd = some order → order.coreOrderId ≠ id) ∧
      ∃ qty status, s'.orderManager.lastSeen id = (s.orderManager.lastSeen id).map
        fun order => (order.setRemainingQuantity qty).setStatus status) := by
  have hkeep (hsame : s'.orderManager.lastSeen id = s.orderManager.lastSeen id) :
      ∃ qty status, s'.orderManager.lastSeen id = (s.orderManager.lastSeen id).map
        fun order => (order.setRemainingQuantity qty).setStatus status := by
    rw [hsame]
    cases s.orderManager.lastSeen id with
    | none => exact ⟨0, .new, rfl⟩
    | some order => exact ⟨order.remainingQuantity, order.status, rfl⟩
  rcases processCommand_cases hinv hcmd clock with
    ⟨hincoming, _, _, _, _, heq⟩ | ⟨c, order, rfl, _, _, heq⟩ | ⟨order, hincoming, heq⟩
  · obtain rfl := Option.some.inj (heq.symm.trans h)
    exact Or.inr ⟨fun order horder => by simp [hincoming] at horder, hkeep rfl⟩
  · obtain rfl := Option.some.inj (heq.symm.trans h)
    exact Or.inr ⟨fun _ horder => by simp [incomingOrder] at horder,
      hkeep (OrderManager.removeOrderById_lastSeen _ _ _)⟩
  · obtain rfl := Option.some.inj (heq.symm.trans h)
    have hadmitted := hinv.prepared hcmd hincoming clock
    have hold := prepared_lastSeen hincoming clock id
    have hafter : ((s.prepared clock order cmd).afterAll clock order cmd).orderManager.lastSeen id =
        ((s.prepared clock order cmd).afterMatch clock order).orderManager.lastSeen id :=
      afterAll_lastSeen id
    have hother (hid : id ≠ order.coreOrderId) (order' : Order P)
        (horder' : s.incomingOrder cmd = some order') : order'.coreOrderId ≠ id := by
      rw [← Option.some.inj (hincoming.symm.trans horder')]
      exact Ne.symm hid
    rcases hadmitted.afterMatch_lastSeen clock id with
      ⟨hid, hserved⟩ | ⟨hid, _, hsame⟩ | ⟨hid, f, _, _, hgive, hgiven⟩
    · obtain ⟨qty, status, hset⟩ := (s.prepared clock order cmd).served_set order
      refine Or.inl ⟨order, qty, status, hincoming, hid.symm, ?_⟩
      rw [executed, hafter, hserved, ← hset]
    · rw [if_neg (Ne.symm hid)] at hold
      exact Or.inr ⟨hother hid, hkeep (hafter.trans (hsame.trans hold))⟩
    · rw [if_neg (Ne.symm hid)] at hold
      refine Or.inr ⟨hother hid, f.1.remainingQuantity - UInt64.ofNat f.2,
        (f.1.giveFill f.2).status, ?_⟩
      rw [executed, hafter, hgiven, ← hold, hgive]
      rfl

/-- Only orders that have come in have been seen. -/
def Seen (ids : List OrderID) (s : Partition P) : Prop :=
  ∀ id order, s.orderManager.lastSeen id = some order → id ∈ ids

omit [PriceArith P] in
theorem seen_init (symbol : Instrument) (currentId : TradeID) :
    (init symbol currentId : Partition P).Seen [] := by
  intro id order horder
  simp [init, OrderManager.lastSeen] at horder

theorem seen_step {s' : Partition P} {clock : Clock} (hinv : s.Sound ids)
    (hcmd : Admissible ids cmd) (hseen : s.Seen ids) (h : processCommand clock s cmd = some s') :
    s'.Seen (ids ++ cmd.newIds) := by
  intro id order' horder'
  rcases lastSeen_step hinv hcmd h id with
    ⟨order, qty, status, hincoming, rfl, _⟩ | ⟨_, qty, status, hmap⟩
  · exact (hinv.prepared hcmd hincoming clock).incoming_id
  · rw [hmap] at horder'
    obtain ⟨old, hold, _⟩ := Option.map_eq_some_iff.mp horder'
    exact List.mem_append_left _ (hseen id old hold)

end Partition

end BetaTrader
