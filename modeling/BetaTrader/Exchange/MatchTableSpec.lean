import BetaTrader.Exchange.MatcherSpec

/-!
# What the matcher computes

The outer loop walks along the levels that the incoming order reaches.  On a
side whose pointers are live and distinct it settles the greedy allocation along
the queue of those levels, whatever the number of levels and orders, and keeps
the orders that are not exhausted.
-/

namespace BetaTrader

variable {P : Type}

namespace Matcher

/-- What a side must offer for the incoming order to be matched against it. -/
structure Matchable (manager : OrderManager P) (incoming : Order P) (map : PriceMap P) :
    Prop where
  incoming_mem : manager.orderMap incoming.coreOrderId = some incoming
  live : Live manager (Levels.queue map)
  nodup : (Levels.queue map).Nodup
  noEmpty : Levels.NoEmpty map
  notMem : incoming.coreOrderId ∉ Levels.queue map

/-- The part of a `Matchable` side behind the first level is matchable by what
is left of the incoming order. -/
theorem Matchable.tail {incoming : Order P} {m : MatchState P} {map : PriceMap P}
    {l : P × PriceLevel} (clock : Clock) (h : Matchable m.manager incoming (l :: map)) :
    Matchable (settle clock incoming m (Allocation.fills Order.openQuantity
        incoming.openQuantity (restingOrders m.manager l.2))).manager
      (afterFills incoming (Allocation.fills Order.openQuantity
        incoming.openQuantity (restingOrders m.manager l.2))) map ∧
    ∀ ptr ∈ Levels.queue map, m.manager.orderMap ptr =
      (settle clock incoming m (Allocation.fills Order.openQuantity
        incoming.openQuantity (restingOrders m.manager l.2))).manager.orderMap ptr := by
  have hlive : Live m.manager l.2 := h.live.mono fun ptr hptr => by simp [hptr]
  have hsub := (touchedIds_fills hlive incoming.openQuantity).subset
  obtain ⟨_, hnodup, hdisj⟩ := List.nodup_append.mp h.nodup
  have hne : incoming.coreOrderId ∉ l.2 ++ Levels.queue map := h.notMem
  rw [List.mem_append, not_or] at hne
  have hsame : ∀ ptr ∈ Levels.queue map, m.manager.orderMap ptr =
      (settle clock incoming m (Allocation.fills Order.openQuantity
        incoming.openQuantity (restingOrders m.manager l.2))).manager.orderMap ptr := by
    intro ptr hptr
    refine (settle_other (fun heq => hne.2 (heq ▸ hptr)) fun htouched => ?_).symm
    exact hdisj ptr (hsub htouched) ptr hptr rfl
  refine ⟨⟨?_, ?_, hnodup, (Levels.noEmpty_cons.mp h.noEmpty).2, ?_⟩, hsame⟩
  · rw [afterFills_coreOrderId]
    exact settle_incoming h.incoming_mem fun hmem => hne.1 (hsub hmem)
  · exact (h.live.mono fun ptr hptr => by simp [hptr]).congr hsame
  · rw [afterFills_coreOrderId]
    exact hne.2

section Table

variable [LT P] [DecidableLT P]

/-- The levels the incoming order reaches. -/
def crossingLevels (incoming : Order P) (map : PriceMap P) : PriceMap P :=
  map.takeWhile fun l => !decide (breaks incoming l.1)

/-- The orders the incoming order can trade with, in the order of the map. -/
def crossingOrders (manager : OrderManager P) (incoming : Order P) (map : PriceMap P) :
    List (Order P) :=
  restingOrders manager (Levels.queue (crossingLevels incoming map))

/-- The greedy allocation of the incoming order. -/
def fillsOn (manager : OrderManager P) (incoming : Order P) (map : PriceMap P) :
    List (Order P × ℕ) :=
  Allocation.fills Order.openQuantity incoming.openQuantity (crossingOrders manager incoming map)

/-- The map without the orders the incoming order uses up. -/
def mapAfter (manager : OrderManager P) (incoming : Order P) (map : PriceMap P) : PriceMap P :=
  Levels.prune (fun ptr => ptr ∉
    exhaustedIds incoming.openQuantity (crossingOrders manager incoming map)) map

theorem queue_crossingLevels_prefix_queue (incoming : Order P) (map : PriceMap P) :
    Levels.queue (crossingLevels incoming map) <+: Levels.queue map := by
  obtain ⟨rest, hrest⟩ : crossingLevels incoming map <+: map := List.takeWhile_prefix _
  exact ⟨Levels.queue rest, by rw [← Levels.queue_append, hrest]⟩

theorem mem_queue_of_mem_crossing {incoming : Order P} {map : PriceMap P} {ptr : OrderPtr}
    (h : ptr ∈ Levels.queue (crossingLevels incoming map)) : ptr ∈ Levels.queue map :=
  (queue_crossingLevels_prefix_queue incoming map).subset h

omit [DecidableLT P] in
theorem breaks_afterFills (incoming : Order P) (fs : List (Order P × ℕ)) (price : P) :
    breaks (afterFills incoming fs) price ↔ breaks incoming price := by
  obtain ⟨qty, status, h⟩ := afterFills_eq incoming fs
  rw [h]
  rfl

theorem crossingLevels_afterFills (incoming : Order P) (fs : List (Order P × ℕ))
    (map : PriceMap P) :
    crossingLevels (afterFills incoming fs) map = crossingLevels incoming map := by
  simp only [crossingLevels, breaks_afterFills]

theorem crossingLevels_cons_of_breaks {incoming : Order P} {l : P × PriceLevel}
    (h : breaks incoming l.1) (map : PriceMap P) : crossingLevels incoming (l :: map) = [] := by
  simp [crossingLevels, h]

theorem crossingLevels_cons {incoming : Order P} {l : P × PriceLevel}
    (h : ¬breaks incoming l.1) (map : PriceMap P) :
    crossingLevels incoming (l :: map) = l :: crossingLevels incoming map := by
  simp [crossingLevels, h]

variable {clock : Clock} {incoming : Order P} {m : MatchState P} {manager : OrderManager P}
  {map : PriceMap P}

theorem mapAfter_of_crossing_nil (hmap : Levels.NoEmpty map)
    (h : crossingOrders manager incoming map = []) : mapAfter manager incoming map = map := by
  refine Levels.prune_eq_self hmap fun ptr _ => ?_
  simp [h, exhaustedIds]

theorem mapAfter_of_openQuantity_zero (hmap : Levels.NoEmpty map)
    (h : incoming.openQuantity = 0) : mapAfter manager incoming map = map := by
  refine Levels.prune_eq_self hmap fun ptr _ => ?_
  simp [h, exhaustedIds]

omit [LT P] [DecidableLT P] in
/-- Dropping the orders used up on two parts of the queue drops each from its
own part. -/
theorem prune_append_ids (price : P) {level : PriceLevel} {ids ids' : List OrderID}
    (hdisj : ∀ ptr ∈ level, ptr ∉ Levels.queue map) (hids : ∀ id ∈ ids, id ∈ level)
    (hids' : ∀ id ∈ ids', id ∈ Levels.queue map) :
    Levels.prune (fun ptr => ptr ∉ ids ++ ids') ((price, level) :: map) =
      if (level.filter fun ptr => ptr ∉ ids).isEmpty
      then Levels.prune (fun ptr => ptr ∉ ids') map
      else (price, level.filter fun ptr => ptr ∉ ids) ::
        Levels.prune (fun ptr => ptr ∉ ids') map := by
  have hlevel : (level.filter fun ptr => ptr ∉ ids ++ ids') =
      level.filter fun ptr => ptr ∉ ids := by
    apply List.filter_congr
    intro ptr hptr
    have hnot : ptr ∉ ids' := fun hmem => hdisj ptr hptr (hids' ptr hmem)
    simp [hnot]
  have hmap : Levels.prune (fun ptr => ptr ∉ ids ++ ids') map =
      Levels.prune (fun ptr => ptr ∉ ids') map := by
    apply Levels.prune_congr
    intro ptr hptr
    have hnot : ptr ∉ ids := fun hmem => hdisj ptr (hids ptr hmem) hptr
    simp [hnot]
  rw [Levels.prune, hlevel, hmap]

/-- The outer loop settles the greedy allocation along the crossing queue.  The
induction follows the levels; the demand that one level leaves over is asked of
the next. -/
theorem matchLevels_eq (h : Matchable m.manager incoming map) :
    matchLevels clock incoming.coreOrderId m map =
      some (settle clock incoming m (fillsOn m.manager incoming map),
        mapAfter m.manager incoming map) := by
  induction map generalizing m incoming with
  | nil => rfl
  | cons l map ih =>
      obtain ⟨price, level⟩ := l
      simp only [matchLevels, OrderManager.deref, h.incoming_mem, Option.bind_eq_bind,
        Option.bind_some, Order.remainingQuantity_pos_iff]
      by_cases hgo : 0 < incoming.openQuantity ∧ ¬breaks incoming price
      · rw [if_pos hgo]
        have hlive : Live m.manager level := h.live.mono fun ptr hptr => by simp [hptr]
        obtain ⟨hnodup, _, hdisj⟩ := List.nodup_append.mp h.nodup
        have hne : incoming.coreOrderId ∉ level := fun hmem => h.notMem (by simp [hmem])
        obtain ⟨htail, hsame⟩ := h.tail clock
        have hcross : crossingOrders m.manager incoming ((price, level) :: map) =
            restingOrders m.manager level ++ crossingOrders m.manager incoming map := by
          rw [crossingOrders, crossingLevels_cons hgo.2, Levels.queue_cons,
            restingOrders_append]
          rfl
        have hdemand : (afterFills incoming (Allocation.fills Order.openQuantity
            incoming.openQuantity (restingOrders m.manager level))).openQuantity =
              incoming.openQuantity - Allocation.total Order.openQuantity
                (restingOrders m.manager level) := by
          rw [openQuantity_afterFills (by rw [sum_fills_restingOrders]; omega),
            sum_fills_restingOrders]
          omega
        have hcrossTail : ∀ manager fs,
            (∀ ptr ∈ Levels.queue map, m.manager.orderMap ptr = manager.orderMap ptr) →
              crossingOrders manager (afterFills incoming fs) map =
                crossingOrders m.manager incoming map := by
          intro manager fs hmanager
          rw [crossingOrders, crossingLevels_afterFills, crossingOrders]
          exact (restingOrders_congr fun ptr hptr =>
            hmanager ptr (mem_queue_of_mem_crossing hptr)).symm
        have hlevels := ih htail
        rw [afterFills_coreOrderId, fillsOn, mapAfter, hcrossTail _ _ hsame, hdemand] at hlevels
        have hcrossLive : Live m.manager (Levels.queue (crossingLevels incoming map)) :=
          h.live.mono fun ptr hptr => by simp [mem_queue_of_mem_crossing hptr]
        have hdisj' : ∀ ptr ∈ level, ptr ∉ Levels.queue map := by
          intro ptr hptr hmem
          exact hdisj ptr hptr ptr hmem rfl
        have hids : ∀ demand, ∀ id ∈ exhaustedIds demand (crossingOrders m.manager incoming map),
            id ∈ Levels.queue map :=
          fun demand id hid => mem_queue_of_mem_crossing (exhaustedIds_subset hcrossLive _ id hid)
        have hprune := prune_append_ids price hdisj'
          (exhaustedIds_subset hlive incoming.openQuantity)
          (hids (incoming.openQuantity -
            Allocation.total Order.openQuantity (restingOrders m.manager level)))
        rw [matchLevel_eq h.incoming_mem hlive hnodup hne, Option.bind_some, hlevels,
          Option.bind_some, fillsOn, mapAfter, hcross, Allocation.fills_append, settle_append,
          exhaustedIds_append hlive, hprune]
        rfl
      · rw [if_neg hgo]
        have hfills : fillsOn m.manager incoming ((price, level) :: map) = [] ∧
            mapAfter m.manager incoming ((price, level) :: map) = (price, level) :: map := by
          by_cases hbreaks : breaks incoming price
          · have hnil : crossingOrders m.manager incoming ((price, level) :: map) = [] := by
              rw [crossingOrders, crossingLevels_cons_of_breaks hbreaks]
              rfl
            exact ⟨by rw [fillsOn, hnil]; rfl, mapAfter_of_crossing_nil h.noEmpty hnil⟩
          · have hzero : incoming.openQuantity = 0 := by
              by_contra hpos
              exact hgo ⟨Nat.pos_of_ne_zero hpos, hbreaks⟩
            exact ⟨by rw [fillsOn, hzero, Allocation.fills_zero],
              mapAfter_of_openQuantity_zero h.noEmpty hzero⟩
        rw [hfills.1, hfills.2]
        rfl

/-! ## The whole match -/

/-- The incoming order as the match leaves it. -/
def served (manager : OrderManager P) (incoming : Order P) (map : PriceMap P) : Order P :=
  (afterFills incoming (fillsOn manager incoming map)).setStatus
    (finalStatus (afterFills incoming (fillsOn manager incoming map)))

/-- The state as the match leaves it. -/
def matched (clock : Clock) (incoming : Order P) (m : MatchState P) (map : PriceMap P) :
    MatchState P :=
  { settle clock incoming m (fillsOn m.manager incoming map) with
    manager := (settle clock incoming m (fillsOn m.manager incoming map)).manager.write
      incoming.coreOrderId (served m.manager incoming map) }

theorem touchedIds_fillsOn (h : Matchable manager incoming map) :
    touchedIds (fillsOn manager incoming map) <+:
      Levels.queue (crossingLevels incoming map) :=
  touchedIds_fills (h.live.mono fun _ => mem_queue_of_mem_crossing) _

theorem incoming_notMem_touchedIds (h : Matchable manager incoming map) :
    incoming.coreOrderId ∉ touchedIds (fillsOn manager incoming map) := fun hmem =>
  h.notMem (mem_queue_of_mem_crossing ((touchedIds_fillsOn h).subset hmem))

theorem nodup_touchedIds (h : Matchable manager incoming map) :
    (touchedIds (fillsOn manager incoming map)).Nodup :=
  h.nodup.sublist ((touchedIds_fillsOn h).sublist.trans
    (queue_crossingLevels_prefix_queue incoming map).sublist)

/-- A fill goes to an order that is there, and takes no more than it has. -/
theorem mem_fillsOn (h : Matchable manager incoming map) {f : Order P × ℕ}
    (hf : f ∈ fillsOn manager incoming map) :
    manager.orderMap f.1.coreOrderId = some f.1 ∧
      f.1.coreOrderId ∈ Levels.queue (crossingLevels incoming map) ∧
      0 < f.2 ∧ f.2 ≤ f.1.openQuantity := by
  have hlive : Live manager (Levels.queue (crossingLevels incoming map)) :=
    h.live.mono fun _ => mem_queue_of_mem_crossing
  obtain ⟨hid, horder⟩ := hlive.mem_restingOrders.mp (Allocation.mem_queue_of_mem_fills hf)
  exact ⟨horder, hid, Allocation.fills_amount hlive.openQuantity_pos f hf⟩

/-- The exhausted orders are those a fill takes everything from. -/
theorem mem_exhaustedIds (h : Matchable manager incoming map) {id : OrderID} :
    id ∈ exhaustedIds incoming.openQuantity (crossingOrders manager incoming map) ↔
      ∃ f ∈ fillsOn manager incoming map, f.1.coreOrderId = id ∧ f.2 = f.1.openQuantity := by
  have hlive : Live manager (Levels.queue (crossingLevels incoming map)) :=
    h.live.mono fun _ => mem_queue_of_mem_crossing
  have hexhausted : Allocation.exhausted Order.openQuantity incoming.openQuantity
      (crossingOrders manager incoming map) = _ :=
    Allocation.exhausted_eq_filter hlive.openQuantity_pos
  simp only [exhaustedIds, hexhausted, List.mem_map, List.mem_filter, decide_eq_true_eq]
  constructor
  · rintro ⟨_, ⟨f, ⟨hf, hall⟩, rfl⟩, hid⟩
    exact ⟨f, hf, hid, hall⟩
  · rintro ⟨f, hf, hid, hall⟩
    exact ⟨f.1, ⟨f, ⟨hf, hall⟩, rfl⟩, hid⟩

theorem mem_queue_mapAfter (h : Matchable manager incoming map) {ptr : OrderPtr} :
    ptr ∈ Levels.queue (mapAfter manager incoming map) ↔ ptr ∈ Levels.queue map ∧
      ∀ f ∈ fillsOn manager incoming map, f.1.coreOrderId = ptr → f.2 < f.1.openQuantity := by
  rw [mapAfter, Levels.queue_prune, List.mem_filter]
  refine and_congr_right fun _ => ?_
  rw [decide_eq_true_eq, mem_exhaustedIds h, not_exists]
  refine forall_congr' fun f => ?_
  rw [not_and, not_and]
  refine forall_congr' fun hf => forall_congr' fun _ => ?_
  have hle := (mem_fillsOn h hf).2.2.2
  omega

/-- `Matcher::match` settles the greedy allocation along the orders the incoming
order reaches on the other side, and then sets the final status. -/
theorem matchOrder_eq {book : OrderBook P}
    (h : Matchable m.manager incoming (book.sideMap incoming.side.opposite)) :
    matchOrder clock incoming.coreOrderId m book =
      some (matched clock incoming m (book.sideMap incoming.side.opposite),
        book.setSideMap incoming.side.opposite
          (mapAfter m.manager incoming (book.sideMap incoming.side.opposite))) := by
  have hi : (settle clock incoming m (fillsOn m.manager incoming _)).manager.orderMap
      incoming.coreOrderId = _ := settle_incoming h.incoming_mem (incoming_notMem_touchedIds h)
  simp only [matchOrder, matchTable, OrderManager.deref, h.incoming_mem, Option.bind_eq_bind,
    Option.bind_some, matchLevels_eq h, OrderManager.modify_eq hi]
  rfl

/-! ## The parts of the result -/

@[simp] theorem matched_trades : (matched clock incoming m map).trades =
    m.trades ++ tradesOf clock incoming (fillsOn m.manager incoming map) m.currentId m.ticks :=
  settle_trades clock incoming m _

@[simp] theorem matched_currentId : (matched clock incoming m map).currentId =
    m.currentId + (fillsOn m.manager incoming map).length :=
  settle_currentId clock incoming m _

@[simp] theorem matched_ticks : (matched clock incoming m map).ticks =
    m.ticks + (fillsOn m.manager incoming map).length :=
  settle_ticks clock incoming m _

@[simp] theorem matched_destroyed :
    (matched clock incoming m map).manager.destroyed = m.manager.destroyed :=
  settle_destroyed clock incoming m _

@[simp] theorem matched_incoming : (matched clock incoming m map).manager.orderMap
    incoming.coreOrderId = some (served m.manager incoming map) :=
  OrderManager.write_orderMap_self _ _ _

theorem matched_other {ptr : OrderPtr} (hi : ptr ≠ incoming.coreOrderId)
    (hfs : ptr ∉ touchedIds (fillsOn m.manager incoming map)) :
    (matched clock incoming m map).manager.orderMap ptr = m.manager.orderMap ptr :=
  (OrderManager.write_orderMap_of_ne _ _ hi).trans (settle_other hi hfs)

theorem matched_resting (h : Matchable m.manager incoming map) {f : Order P × ℕ}
    (hf : f ∈ fillsOn m.manager incoming map) :
    (matched clock incoming m map).manager.orderMap f.1.coreOrderId =
      some (f.1.giveFill f.2) := by
  have hnot := incoming_notMem_touchedIds h
  have hne : f.1.coreOrderId ≠ incoming.coreOrderId := fun heq =>
    hnot (heq ▸ List.mem_map_of_mem hf)
  exact (OrderManager.write_orderMap_of_ne _ _ hne).trans
    (settle_resting (nodup_touchedIds h) hnot hf)

/-- Apart from quantity and status the incoming order stays as it is. -/
theorem served_eq (manager : OrderManager P) (incoming : Order P) (map : PriceMap P) :
    ∃ qty status, served manager incoming map =
      (incoming.setRemainingQuantity qty).setStatus status := by
  obtain ⟨qty, status, h⟩ := afterFills_eq incoming (fillsOn manager incoming map)
  exact ⟨qty, _, by rw [served, h]; rfl⟩

theorem served_openQuantity (manager : OrderManager P) (incoming : Order P) (map : PriceMap P) :
    (served manager incoming map).openQuantity = incoming.openQuantity -
      Allocation.total Order.openQuantity (crossingOrders manager incoming map) := by
  have hsum := sum_fills_restingOrders incoming.openQuantity (crossingOrders manager incoming map)
  have hfills : (afterFills incoming (fillsOn manager incoming map)).openQuantity =
      incoming.openQuantity - ((fillsOn manager incoming map).map Prod.snd).sum :=
    openQuantity_afterFills (by rw [fillsOn, hsum]; omega)
  have hserved : (served manager incoming map).openQuantity =
      (afterFills incoming (fillsOn manager incoming map)).openQuantity := rfl
  rw [hserved, hfills, fillsOn, hsum]
  omega

end Table

end Matcher

end BetaTrader
