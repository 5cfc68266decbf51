import BetaTrader.Exchange.CommandSpec

/-!
# Runs of a partition

Every command keeps the invariant of the partition, and is defined under it: no
handler meets a pointer to an order that is gone.  The representation of the
book and the uncrossed spread are read off the invariant.
-/

namespace BetaTrader

namespace Partition

open Matcher

section Sound

variable {P : Type} [PriceArith P] {ids : List OrderID} {s : Partition P} {order : Order P}
  {cmd : Command P} {clock : Clock}

omit [PriceArith P] in
theorem Sound.mono (h : s.Sound ids) {ids' : List OrderID} (hsub : ids ⊆ ids') : s.Sound ids' :=
  ⟨h.book, fun id order horder =>
    have hmanaged := h.managed id order horder
    ⟨hmanaged.1, hmanaged.2.1, hsub hmanaged.2.2⟩⟩

/-- What holds when a command calls the matcher for `order`, whatever the prices
are. -/
structure Entered (ids : List OrderID) (s : Partition P) (order : Order P) : Prop where
  book : BookSound s.orderManager s.orderBook
  incoming_mem : s.orderManager.orderMap order.coreOrderId = some order
  notMem : ¬s.orderBook.Contains order.coreOrderId
  incoming_id : order.coreOrderId ∈ ids
  managed : ∀ id, id ≠ order.coreOrderId → ∀ order', s.orderManager.orderMap id = some order' →
    order'.coreOrderId = id ∧ order'.orderType = .limit ∧ id ∈ ids

theorem Sound.prepared (hinv : s.Sound ids) (hcmd : Admissible ids cmd)
    (h : s.incomingOrder cmd = some order) (clock : Clock) :
    Entered (ids ++ cmd.newIds) (s.prepared clock order cmd) order where
  book := prepared_book hinv hcmd h
  incoming_mem := (prepared_matchable clock hinv hcmd h).incoming_mem
  notMem := by
    rw [prepared_orderBook hinv hcmd h]
    exact OrderBook.not_contains_without _ _
  incoming_id := by
    rcases incomingOrder_cases hinv hcmd h with ⟨c, rfl, rfl, _⟩ | ⟨_, _, _, _, _, _, hid, _⟩
    · exact List.mem_append_right _ (List.mem_singleton.mpr rfl)
    · exact List.mem_append_left _ hid
  managed := by
    intro id hid order' horder
    rw [prepared_orderManager h, OrderManager.write_orderMap_of_ne _ _ hid] at horder
    exact (hinv.mono (List.subset_append_left ids _)).managed id order' horder

omit [PriceArith P] in
theorem Entered.matchable (h : Entered ids s order) :
    Matchable s.orderManager order (s.otherSide order) :=
  h.book.matchable h.incoming_mem h.notMem _

theorem Entered.afterMatch_book (h : Entered ids s order) (clock : Clock) :
    BookSound (s.afterMatch clock order).orderManager
      (s.orderBook.afterMatch s.orderManager order) :=
  h.book.afterMatch h.incoming_mem h.notMem

/-- The booking loop retires no order that rests in the book, since those are
open. -/
theorem Entered.notMem_retiredIds (h : Entered ids s order) {ptr : OrderPtr}
    (hptr : (s.orderBook.afterMatch s.orderManager order).Contains ptr) :
    ptr ∉ retiredIds (s.served order) (s.fills order) := by
  obtain ⟨resting, hresting, _, hopen, _⟩ :=
    (h.afterMatch_book fun _ => 0).contains_orderMap hptr
  rw [mem_retiredIds]
  rintro (⟨heq, _⟩ | ⟨f, hf, rfl, hzero⟩)
  · rw [served_coreOrderId] at heq
    exact h.notMem (heq ▸ OrderBook.contains_afterMatch hptr)
  · have hfilled : (s.afterMatch (fun _ => 0) order).orderManager.orderMap f.1.coreOrderId =
        some (f.1.giveFill f.2) :=
      matched_resting h.matchable ((bookedFills_prefix_self _ _).subset hf)
    rw [Option.some.inj (hresting.symm.trans hfilled)] at hopen
    rw [Order.remainingQuantity_eq_zero_iff] at hzero
    omega

/-- What follows the match changes no order that is left in the book. -/
theorem Entered.afterAll_orderMap (h : Entered ids s order) {ptr : OrderPtr}
    (hptr : (s.orderBook.afterMatch s.orderManager order).Contains ptr) :
    (s.afterAll clock order cmd).orderManager.orderMap ptr =
      (s.afterMatch clock order).orderManager.orderMap ptr := by
  have hne : ptr ≠ order.coreOrderId := fun heq =>
    h.notMem (heq ▸ OrderBook.contains_afterMatch hptr)
  rw [afterAll_other hne, if_neg (h.notMem_retiredIds hptr)]

/-- What is left of the order is not in the book when it is inserted. -/
theorem Entered.served_notMem (h : Entered ids s order) :
    ¬(s.orderBook.afterMatch s.orderManager order).Contains (s.served order).coreOrderId := by
  rw [served_coreOrderId]
  exact fun hmem => h.notMem (OrderBook.contains_afterMatch hmem)

theorem Entered.afterAll_served (h : Entered ids s order) (hremains : s.Remains order) :
    (s.afterAll clock order cmd).orderManager.orderMap (s.served order).coreOrderId =
      some (s.served order) := by
  rw [served_coreOrderId, afterAll_incoming h.matchable, if_pos hremains]

theorem Entered.afterAll_book (h : Entered ids s order) :
    BookSound (s.afterAll clock order cmd).orderManager
      (s.afterAll clock order cmd).orderBook := by
  have hkeep : BookSound (s.afterAll clock order cmd).orderManager
      (s.orderBook.afterMatch s.orderManager order) :=
    (h.afterMatch_book clock).congr fun ptr hptr => h.afterAll_orderMap hptr
  rw [afterAll_orderBook]
  split_ifs with hremains
  · exact hkeep.push (h.afterAll_served hremains) hremains.1 h.served_notMem
  · exact hkeep

theorem Entered.afterAll (h : Entered ids s order) : (s.afterAll clock order cmd).Sound ids where
  book := h.afterAll_book
  managed := by
    intro id order' horder
    by_cases hid : id = order.coreOrderId
    · subst hid
      rw [afterAll_incoming h.matchable] at horder
      split_ifs at horder with hremains
      obtain ⟨qty, status, hserved⟩ := s.served_set order
      rw [← Option.some.inj horder]
      refine ⟨served_coreOrderId, ?_, h.incoming_id⟩
      rw [hserved]
      exact hremains.2
    · rw [afterAll_other hid] at horder
      split_ifs at horder
      rcases afterMatch_other clock h.matchable hid with
        ⟨_, hsame⟩ | ⟨f, _, rfl, hold, hnew⟩
      · exact h.managed id hid order' (hsame ▸ horder)
      · have hmanaged := h.managed _ hid f.1 hold
        rw [← Option.some.inj (hnew.symm.trans horder)]
        exact hmanaged

/-- A command is defined whatever its price is, and leaves the book sound. -/
theorem processCommand_sound (hinv : s.Sound ids) (hcmd : Admissible ids cmd) (clock : Clock) :
    ∃ s', processCommand clock s cmd = some s' ∧ s'.Sound (ids ++ cmd.newIds) := by
  have hmono := hinv.mono (List.subset_append_left ids cmd.newIds)
  rcases processCommand_cases hinv hcmd clock with
    ⟨_, _, _, _, _, h⟩ | ⟨c, order, rfl, horder, _, h⟩ | ⟨order, hincoming, h⟩
  · exact ⟨_, h, hmono.book, hmono.managed⟩
  · refine ⟨_, h, ?_, fun id order' horder' => ?_⟩
    · refine (hinv.book.without c.orderId).congr fun ptr hptr => ?_
      exact OrderManager.removeOrderById_orderMap_of_ne _
        (OrderBook.contains_without.mp hptr).1
    · exact hmono.managed id order' (OrderManager.orderMap_of_removeOrderById horder').2
  · exact ⟨_, h, (hinv.prepared hcmd hincoming clock).afterAll⟩

omit [PriceArith P] in
theorem sound_init (symbol : Instrument) (currentId : TradeID) :
    (init symbol currentId : Partition P).Sound [] where
  book := by
    intro side
    rw [init, OrderBook.empty_sideMap]
    exact ⟨Levels.noEmpty_nil, by simp, by simp⟩
  managed := by
    intro id order horder
    simp [init] at horder

/-- The commands of a run: no id comes in twice, and only limit and market
orders come in. -/
def Valid (commands : List (Command P)) : Prop :=
  (newIds commands).Nodup ∧ ∀ cmd ∈ commands, cmd.Supported

instance (commands : List (Command P)) : Decidable (Valid commands) :=
  inferInstanceAs (Decidable (_ ∧ _))

omit [PriceArith P] in
theorem Valid.admissible {pre post : List (Command P)} {cmd : Command P}
    (h : Valid (pre ++ cmd :: post)) : Admissible (newIds pre) cmd := by
  obtain ⟨hnodup, hsupported⟩ := h
  refine ⟨fun id hid hmem => ?_, hsupported cmd (by simp)⟩
  rw [newIds, List.flatMap_append, List.flatMap_cons] at hnodup
  exact (List.nodup_append.mp hnodup).2.2 id hmem id (List.mem_append_left _ hid) rfl

omit [PriceArith P] in
theorem Valid.of_append {pre post : List (Command P)} (h : Valid (pre ++ post)) : Valid pre := by
  obtain ⟨hnodup, hsupported⟩ := h
  rw [newIds, List.flatMap_append] at hnodup
  exact ⟨hnodup.of_append_left, fun cmd hcmd => hsupported cmd (List.mem_append_left _ hcmd)⟩

theorem Valid.follows {commands : List (Command P)} (h : Valid commands) (clock : Clock)
    (s : Partition P) : PartialRun.Follows (processCommand clock)
      (fun history _ cmd => Admissible (newIds history) cmd) [] s commands := by
  refine PartialRun.follows_of_history fun pre cmd post hcommands => ?_
  rw [hcommands] at h
  exact h.admissible

omit [PriceArith P] in
theorem newIds_concat (commands : List (Command P)) (cmd : Command P) :
    newIds (commands ++ [cmd]) = newIds commands ++ cmd.newIds := by
  simp [newIds]

/-- The induction rule for valid runs, whatever the prices are. -/
theorem processAll_sound_induction (Inv : List (Command P) → Partition P → Prop)
    {symbol : Instrument} {currentId : TradeID} (hinit : Inv [] (init symbol currentId))
    (hstep : ∀ history s cmd s', s.Sound (newIds history) → Admissible (newIds history) cmd →
      Inv history s → processCommand clock s cmd = some s' → Inv (history ++ [cmd]) s')
    {commands : List (Command P)} (hvalid : Valid commands) :
    ∃ s, processAll clock (init symbol currentId) commands = some s ∧
      s.Sound (newIds commands) ∧ Inv commands s := by
  refine PartialRun.run_induction (fun history s => s.Sound (newIds history) ∧ Inv history s)
    (fun history s cmd hs hcmd => ?_) ⟨sound_init symbol currentId, hinit⟩
    (hvalid.follows clock _)
  obtain ⟨s', hs', hsound⟩ := processCommand_sound hs.1 hcmd clock
  rw [← newIds_concat] at hsound
  exact ⟨s', hs', hsound, hstep history s cmd s' hs.1 hcmd hs.2 hs'⟩

end Sound

/-! ## Prices in order -/

variable {P : Type} [FinitePrice P] {ids : List OrderID} {s : Partition P} {order : Order P}
  {cmd : Command P} {clock : Clock}

/-- What holds when a command calls the matcher for `order`. -/
structure Admitted (ids : List OrderID) (s : Partition P) (order : Order P) : Prop where
  book : BookInvariant s.orderManager s.orderBook
  uncrossed : Uncrossed s.orderBook
  incoming_mem : s.orderManager.orderMap order.coreOrderId = some order
  notMem : ¬s.orderBook.Contains order.coreOrderId
  incoming_id : order.coreOrderId ∈ ids
  managed : ∀ id, id ≠ order.coreOrderId → ∀ order', s.orderManager.orderMap id = some order' →
    order'.coreOrderId = id ∧ order'.orderType = .limit ∧ id ∈ ids

theorem Admitted.entered (h : Admitted ids s order) : Entered ids s order :=
  ⟨h.book.sound, h.incoming_mem, h.notMem, h.incoming_id, h.managed⟩

theorem prepared_bookInvariant (hinv : s.Sound ids) (hcmd : Admissible ids cmd)
    (h : s.incomingOrder cmd = some order) (clock : Clock)
    (hbook : BookInvariant s.orderManager s.orderBook) :
    BookInvariant (s.prepared clock order cmd).orderManager
      (s.prepared clock order cmd).orderBook := by
  rw [prepared_orderManager h, prepared_orderBook hinv hcmd h]
  refine (hbook.without order.coreOrderId).congr fun ptr hptr => ?_
  exact OrderManager.write_orderMap_of_ne _ _ (OrderBook.contains_without.mp hptr).1

theorem Invariant.prepared (hinv : s.Invariant ids) (hcmd : Admissible ids cmd)
    (h : s.incomingOrder cmd = some order) (clock : Clock) :
    Admitted (ids ++ cmd.newIds) (s.prepared clock order cmd) order := by
  have hentered := hinv.sound.prepared hcmd h clock
  refine ⟨prepared_bookInvariant hinv.sound hcmd h clock hinv.book, ?_, hentered.incoming_mem,
    hentered.notMem, hentered.incoming_id, hentered.managed⟩
  rw [prepared_orderBook hinv.sound hcmd h]
  exact hinv.uncrossed.without _

theorem Admitted.matchable (h : Admitted ids s order) :
    Matchable s.orderManager order (s.otherSide order) := h.entered.matchable

/-- The book keeps its order through a match, whether or not it was crossed. -/
theorem Entered.afterAll_bookInvariant (h : Entered ids s order)
    (hbook : BookInvariant s.orderManager s.orderBook) :
    BookInvariant (s.afterAll clock order cmd).orderManager
      (s.afterAll clock order cmd).orderBook := by
  have hmatched : BookInvariant (s.afterMatch clock order).orderManager
      (s.orderBook.afterMatch s.orderManager order) := hbook.afterMatch h.incoming_mem h.notMem
  have hkeep : BookInvariant (s.afterAll clock order cmd).orderManager
      (s.orderBook.afterMatch s.orderManager order) :=
    hmatched.congr fun ptr hptr => h.afterAll_orderMap hptr
  rw [afterAll_orderBook]
  split_ifs with hremains
  · exact hkeep.push (h.afterAll_served hremains) hremains.1 h.served_notMem
  · exact hkeep

theorem Admitted.afterAll_book (h : Admitted ids s order) :
    BookInvariant (s.afterAll clock order cmd).orderManager
      (s.afterAll clock order cmd).orderBook := h.entered.afterAll_bookInvariant h.book

/-- The order is inserted behind the other side, because the match has emptied
every level it reaches. -/
theorem Admitted.afterAll_uncrossed (h : Admitted ids s order) :
    Uncrossed (s.afterAll clock order cmd).orderBook := by
  have hmatched := h.uncrossed.afterMatch s.orderManager order
  rw [afterAll_orderBook]
  split_ifs with hremains
  · obtain ⟨qty, status, hserved⟩ := s.served_set order
    refine hmatched.push fun l hl => ?_
    rw [hserved] at hl ⊢
    have hl' : l ∈ (s.orderBook.afterMatch s.orderManager order).sideMap order.side.opposite := hl
    rw [OrderBook.afterMatch, OrderBook.sideMap_setSideMap_self] at hl'
    exact (breaks_of_mem_mapAfter h.matchable (h.book _).sorted hremains.1 hl').2
  · exact hmatched

theorem Admitted.afterAll (h : Admitted ids s order) :
    (s.afterAll clock order cmd).Invariant ids :=
  ⟨h.afterAll_book, h.afterAll_uncrossed, h.entered.afterAll.managed⟩

/-! ## Steps and runs -/

/-- A command keeps the book in order, whether or not it was crossed. -/
theorem processCommand_bookInvariant {s' : Partition P} (hinv : s.Sound ids)
    (hcmd : Admissible ids cmd) (hbook : BookInvariant s.orderManager s.orderBook)
    (h' : processCommand clock s cmd = some s') :
    BookInvariant s'.orderManager s'.orderBook := by
  rcases processCommand_cases hinv hcmd clock with
    ⟨_, _, _, _, _, h⟩ | ⟨c, order, rfl, horder, _, h⟩ | ⟨order, hincoming, h⟩
  · obtain rfl := Option.some.inj (h.symm.trans h')
    exact hbook
  · obtain rfl := Option.some.inj (h.symm.trans h')
    refine (hbook.without c.orderId).congr fun ptr hptr => ?_
    exact OrderManager.removeOrderById_orderMap_of_ne _ (OrderBook.contains_without.mp hptr).1
  · obtain rfl := Option.some.inj (h.symm.trans h')
    exact (hinv.prepared hcmd hincoming clock).afterAll_bookInvariant
      (prepared_bookInvariant hinv hcmd hincoming clock hbook)

/-- A command is defined, and keeps the invariant. -/
theorem processCommand_invariant (hinv : s.Invariant ids) (hcmd : Admissible ids cmd)
    (clock : Clock) :
    ∃ s', processCommand clock s cmd = some s' ∧ s'.Invariant (ids ++ cmd.newIds) := by
  obtain ⟨s', h', hsound⟩ := processCommand_sound hinv.sound hcmd clock
  refine ⟨s', h', processCommand_bookInvariant hinv.sound hcmd hinv.book h', ?_, hsound.managed⟩
  rcases processCommand_cases hinv.sound hcmd clock with
    ⟨_, _, _, _, _, h⟩ | ⟨c, order, rfl, horder, _, h⟩ | ⟨order, hincoming, h⟩
  · obtain rfl := Option.some.inj (h.symm.trans h')
    exact hinv.uncrossed
  · obtain rfl := Option.some.inj (h.symm.trans h')
    exact hinv.uncrossed.without _
  · obtain rfl := Option.some.inj (h.symm.trans h')
    exact (hinv.prepared hcmd hincoming clock).afterAll_uncrossed

theorem invariant_init (symbol : Instrument) (currentId : TradeID) :
    (init symbol currentId : Partition P).Invariant [] where
  book side := by
    rw [init, OrderBook.empty_sideMap]
    exact ⟨List.Pairwise.nil, Levels.noEmpty_nil, Levels.all_nil, List.nodup_nil⟩
  uncrossed side l hl := by
    rw [init, OrderBook.empty_sideMap] at hl
    exact (List.not_mem_nil hl).elim
  managed id order horder := by simp [init] at horder

/-- The induction rule for valid runs: `Inv` may rely on the invariant. -/
theorem processAll_induction (Inv : List (Command P) → Partition P → Prop)
    {symbol : Instrument} {currentId : TradeID} (hinit : Inv [] (init symbol currentId))
    (hstep : ∀ history s cmd s', s.Invariant (newIds history) → Admissible (newIds history) cmd →
      Inv history s → processCommand clock s cmd = some s' → Inv (history ++ [cmd]) s')
    {commands : List (Command P)} (hvalid : Valid commands) :
    ∃ s, processAll clock (init symbol currentId) commands = some s ∧
      s.Invariant (newIds commands) ∧ Inv commands s := by
  refine PartialRun.run_induction (fun history s => s.Invariant (newIds history) ∧ Inv history s)
    (fun history s cmd hs hcmd => ?_) ⟨invariant_init symbol currentId, hinit⟩
    (hvalid.follows clock _)
  obtain ⟨s', hs', hinv⟩ := processCommand_invariant hs.1 hcmd clock
  rw [← newIds_concat] at hinv
  exact ⟨s', hs', hinv, hstep history s cmd s' hs.1 hcmd hs.2 hs'⟩

theorem processAll_invariant {commands : List (Command P)} (h : Valid commands) (clock : Clock)
    (symbol : Instrument) (currentId : TradeID) :
    ∃ s, processAll clock (init symbol currentId) commands = some s ∧
      s.Invariant (newIds commands) := by
  have hrun : ∃ s, processAll clock (init symbol currentId) commands = some s ∧
      s.Invariant (newIds commands) ∧ True :=
    processAll_induction (fun _ _ => True) trivial (fun _ _ _ _ _ _ _ _ => trivial) h
  obtain ⟨s, hs, hinv, _⟩ := hrun
  exact ⟨s, hs, hinv⟩

/-- Every command of the run meets the condition in the partition it finds. -/
def Meets (clock : Clock) (cond : Partition P → Command P → Prop) (s : Partition P)
    (commands : List (Command P)) : Prop :=
  PartialRun.Follows (processCommand clock) (fun _ => cond) [] s commands

/-- The property holds before the first command and after every command. -/
def AfterEvery (clock : Clock) (Q : Partition P → Prop) (s : Partition P)
    (commands : List (Command P)) : Prop :=
  PartialRun.Always (processCommand clock) Q s commands

section Exact

variable (clock : Clock) (Inv : List (Command P) → Partition P → Prop) (Q : Partition P → Prop)
  (cond : Partition P → Command P → Prop) {symbol : Instrument} {currentId : TradeID}
  (hinit : Inv [] (init symbol currentId)) (hQ : Q (init symbol currentId))

include hinit hQ

/-- A property that survives exactly the commands that meet a condition. -/
theorem processAll_exact
    (hstep : ∀ history s cmd s', s.Invariant (newIds history) → Admissible (newIds history) cmd →
      Inv history s → processCommand clock s cmd = some s' →
        Inv (history ++ [cmd]) s' ∧ (Q s' ↔ Q s ∧ cond s cmd))
    {commands : List (Command P)} (hvalid : Valid commands) :
    ∃ s, processAll clock (init symbol currentId) commands = some s ∧ Inv commands s ∧
      (Q s ↔ Meets clock cond (init symbol currentId) commands) := by
  obtain ⟨s, hs, hInv, hexact⟩ := PartialRun.run_exact
    (fun history s => s.Invariant (newIds history) ∧ Inv history s)
    (fun history s cmd hs hcmd => by
      obtain ⟨s', hs', hinv⟩ := processCommand_invariant hs.1 hcmd clock
      rw [← newIds_concat] at hinv
      obtain ⟨hInv, hexact⟩ := hstep history s cmd s' hs.1 hcmd hs.2 hs'
      exact ⟨s', hs', ⟨hinv, hInv⟩, hexact⟩)
    ⟨invariant_init symbol currentId, hinit⟩ (hvalid.follows clock _)
  exact ⟨s, hs, hInv.2, hexact.trans (and_iff_right hQ)⟩

/-- A property that a command keeps exactly when it meets a condition. -/
theorem afterEvery_iff_meets
    (hstep : ∀ history s cmd s', s.Invariant (newIds history) → Admissible (newIds history) cmd →
      Inv history s → processCommand clock s cmd = some s' →
        Inv (history ++ [cmd]) s' ∧ (Q s → (Q s' ↔ cond s cmd)))
    {commands : List (Command P)} (hvalid : Valid commands) :
    ∃ s, processAll clock (init symbol currentId) commands = some s ∧
      (AfterEvery clock Q (init symbol currentId) commands ↔
        Meets clock cond (init symbol currentId) commands) :=
  PartialRun.always_iff_follows
    (fun history s => s.Invariant (newIds history) ∧ Inv history s)
    (fun history s cmd hs hcmd => by
      obtain ⟨s', hs', hinv⟩ := processCommand_invariant hs.1 hcmd clock
      rw [← newIds_concat] at hinv
      obtain ⟨hInv, hexact⟩ := hstep history s cmd s' hs.1 hcmd hs.2 hs'
      exact ⟨s', hs', ⟨hinv, hInv⟩, hexact⟩)
    ⟨invariant_init symbol currentId, hinit⟩ hQ (hvalid.follows clock _)

end Exact

/-! ## The book after every command -/

/-- How the book and the order manager represent the resting orders. -/
structure Represents (s : Partition P) : Prop where
  owned : ∀ side, ∀ ptr ∈ Levels.queue (s.orderBook.sideMap side),
    ∃ order, s.orderManager.orderMap ptr = some order ∧ order.coreOrderId = ptr
  once : (Levels.queue s.orderBook.bidMap ++ Levels.queue s.orderBook.askMap).Nodup
  resting : ∀ side, ∀ l ∈ s.orderBook.sideMap side, ∀ ptr ∈ l.2, ∀ order,
    s.orderManager.orderMap ptr = some order →
      order.side = side ∧ order.price = l.1 ∧ 0 < order.remainingQuantity
  noEmpty : ∀ side, ∀ l ∈ s.orderBook.sideMap side, l.2 ≠ []

theorem Invariant.represents (h : s.Invariant ids) : s.Represents where
  owned side ptr hptr := by
    obtain ⟨_, order, horder, hid, _⟩ := (h.book side).rests.of_mem hptr
    exact ⟨order, horder, hid⟩
  once := by
    refine List.nodup_append.mpr ⟨(h.book .buy).nodup, (h.book .sell).nodup, ?_⟩
    rintro ptr hbid _ hask rfl
    obtain ⟨_, buy, hbuy, _, hbuySide, _⟩ := (h.book .buy).rests.of_mem hbid
    obtain ⟨_, sell, hsell, _, hsellSide, _⟩ := (h.book .sell).rests.of_mem hask
    rw [Option.some.inj (hbuy.symm.trans hsell), hsellSide] at hbuySide
    exact OrderSide.noConfusion hbuySide
  resting side l hl ptr hptr order horder := by
    obtain ⟨order', horder', _, hside, hprice, hopen⟩ := (h.book side).rests l hl ptr hptr
    rw [Option.some.inj (horder.symm.trans horder')]
    exact ⟨hside, hprice, Order.remainingQuantity_pos_iff.mpr hopen⟩
  noEmpty side := (h.book side).noEmpty

/-- After every run the book represents the resting orders, and no command of
the run has met an order that was gone. -/
theorem processAll_represents {commands : List (Command P)} (h : Valid commands) (clock : Clock)
    (symbol : Instrument) (currentId : TradeID) :
    ∃ s, processAll clock (init symbol currentId) commands = some s ∧ s.Represents := by
  obtain ⟨s, hs, hinv⟩ := processAll_invariant h clock symbol currentId
  exact ⟨s, hs, hinv.represents⟩

/-- After every run all bids, the best one included, are below all asks. -/
theorem processAll_uncrossed {commands : List (Command P)} (h : Valid commands) (clock : Clock)
    (symbol : Instrument) (currentId : TradeID) :
    ∃ s, processAll clock (init symbol currentId) commands = some s ∧
      ∀ bid ∈ s.orderBook.bidMap, ∀ ask ∈ s.orderBook.askMap, bid.1 < ask.1 := by
  obtain ⟨s, hs, hinv⟩ := processAll_invariant h clock symbol currentId
  exact ⟨s, hs, hinv.uncrossed .buy⟩

/-! ## Sample commands -/

namespace Sample

/-- A new order of the trader `sender`. -/
def submit (id : OrderID) (sender : String) (side : OrderSide) (orderType : OrderType)
    (quantity : Quantity) (price : ℚ) : Command ℚ :=
  .newOrder {
    clientId := "7"
    timestamp := 0
    order := .create "A" id .eurusd "7" sender side orderType .day quantity price 0
    isNew := Order.isNew_create .. }

def cancel (id : OrderID) : Command ℚ :=
  .cancelOrder { clientId := "7", timestamp := 0, orderId := id }

def modify (id : OrderID) (price : ℚ) (quantity : Quantity) : Command ℚ :=
  .modifyOrder {
    clientId := "7", timestamp := 0, orderId := id, newPrice := price, newQuantity := quantity }

/-- Two sells, a buy that fills one of them and half of the other, a replace and
a cancel. -/
def commands : List (Command ℚ) :=
  [submit 1 "S1" .sell .limit 3 10, submit 2 "S2" .sell .limit 4 10,
    submit 3 "B1" .buy .limit 5 10, modify 2 11 6, cancel 2]

theorem valid_commands : Valid commands := by decide

/-- A buy that two sells fill together. -/
def twoFills : List (Command ℚ) :=
  [submit 1 "S1" .sell .limit 3 10, submit 2 "S2" .sell .limit 4 10,
    submit 3 "B1" .buy .limit 7 10]

end Sample

theorem processAll_represents_sample :
    ∃ s, processAll (fun _ => 0) (init .eurusd 0) Sample.commands = some s ∧ s.Represents :=
  processAll_represents Sample.valid_commands (fun _ => 0) .eurusd 0

theorem processAll_uncrossed_sample :
    ∃ s, processAll (fun _ => 0) (init .eurusd 0) Sample.commands = some s ∧
      ∀ bid ∈ s.orderBook.bidMap, ∀ ask ∈ s.orderBook.askMap, bid.1 < ask.1 :=
  processAll_uncrossed Sample.valid_commands (fun _ => 0) .eurusd 0

end Partition

end BetaTrader
