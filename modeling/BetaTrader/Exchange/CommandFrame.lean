import BetaTrader.Exchange.RiskGate

/-!
# What a command leaves alone

A command is about one order.  The others it reaches only through trades, and it
removes them only when nothing of them is left.  Nothing is assumed here about
the state of the book, so that the statements hold after any history.
-/

namespace BetaTrader

variable {P : Type}

/-- What trading leaves alone: all but the open quantity and the status. -/
def Order.terms (order : Order P) : Order P :=
  { order with remainingQuantity := 0, status := .new }

/-- Is the order one of the two that trade? -/
def Trade.Names (trade : Trade P) (id : OrderID) : Prop :=
  trade.buyOrderId = id ∨ trade.sellOrderId = id

/-- The quantity that the trades take from an order. -/
def taken (trades : List (Trade P)) (id : OrderID) : ℕ :=
  (trades.map fun trade => trade.takes id).sum

theorem taken_append (trades trades' : List (Trade P)) (id : OrderID) :
    taken (trades ++ trades') id = taken trades id + taken trades' id := by
  simp [taken]

theorem taken_eq_zero {trades : List (Trade P)} {id : OrderID}
    (h : ∀ trade ∈ trades, ¬trade.Names id) : taken trades id = 0 := by
  rw [taken, List.sum_eq_zero]
  intro q hq
  obtain ⟨trade, htrade, rfl⟩ := List.mem_map.mp hq
  exact if_neg (h trade htrade)

/-- The order before and after it has taken part in trades. -/
structure Order.Trades (trades : List (Trade P)) (id : OrderID) (order order' : Order P) :
    Prop where
  terms : order'.terms = order.terms
  quantity : order'.remainingQuantity.toNat + taken trades id = order.remainingQuantity.toNat
  untraded : (∀ trade ∈ trades, ¬trade.Names id) → order' = order

theorem Order.Trades.none {trades : List (Trade P)} {id : OrderID} (order : Order P)
    (h : ∀ trade ∈ trades, ¬trade.Names id) : order.Trades trades id order :=
  ⟨rfl, by rw [taken_eq_zero h, Nat.add_zero], fun _ => rfl⟩

theorem Order.Trades.append {trades trades' : List (Trade P)} {id : OrderID}
    {order order' order'' : Order P} (h : order.Trades trades id order')
    (h' : order'.Trades trades' id order'') : order.Trades (trades ++ trades') id order'' where
  terms := h'.terms.trans h.terms
  quantity := by
    have hquantity := h.quantity
    have hquantity' := h'.quantity
    rw [taken_append]
    omega
  untraded := by
    intro hnone
    rw [h'.untraded fun trade htrade => hnone trade (List.mem_append_right _ htrade)]
    exact h.untraded fun trade htrade => hnone trade (List.mem_append_left _ htrade)

namespace OrderManager

variable {own id : OrderID} {trades trades' : List (Trade P)}
  {manager manager' manager'' : OrderManager P} {order order' : Order P}

/-- Orders are registered under their own ids. -/
def Addressed (manager : OrderManager P) : Prop :=
  ∀ id order, manager.orderMap id = some order → order.coreOrderId = id

/-- Nothing is left of the order. -/
def Exhausted (manager : OrderManager P) (id : OrderID) : Prop :=
  ∃ order, manager.lastSeen id = some order ∧ order.remainingQuantity = 0

/-- The manager after some of the work for the order `own`, in which `trades`
have been made. -/
structure Serves (own : OrderID) (trades : List (Trade P)) (manager manager' : OrderManager P) :
    Prop where
  gone : ∀ id, manager.orderMap id = none →
    manager'.orderMap id = none ∧ manager'.destroyed id = manager.destroyed id
  identity : ∀ id order', manager'.orderMap id = some order' → ∃ order,
    manager.orderMap id = some order ∧ order'.coreOrderId = order.coreOrderId ∧
      order'.clientId = order.clientId ∧ order'.clientOrderId = order.clientOrderId
  parties : ∀ trade ∈ trades, ∀ id, trade.Names id → manager.orderMap id ≠ none
  kept : ∀ id order, id ≠ own → manager.orderMap id = some order → ∃ order',
    manager'.lastSeen id = some order' ∧ order.Trades trades id order' ∧
      (manager'.orderMap id = none → order'.remainingQuantity = 0)

theorem Serves.refl (own : OrderID) (manager : OrderManager P) : manager.Serves own [] manager where
  gone := fun _ h => ⟨h, rfl⟩
  identity := fun _ order h => ⟨order, h, rfl, rfl, rfl⟩
  parties := by simp
  kept := fun id order _ h =>
    ⟨order, lastSeen_of_orderMap h, Order.Trades.none order (by simp), by simp [h]⟩

theorem lastSeen_of_gone (h : manager.orderMap id = none) :
    manager.lastSeen id = manager.destroyed id := by
  rw [lastSeen, h, Option.none_or]

theorem Serves.trans (h : manager.Serves own trades manager')
    (h' : manager'.Serves own trades' manager'') :
    manager.Serves own (trades ++ trades') manager'' where
  gone := by
    intro id hnone
    obtain ⟨hnone', heq⟩ := h.gone id hnone
    obtain ⟨hnone'', heq'⟩ := h'.gone id hnone'
    exact ⟨hnone'', heq'.trans heq⟩
  identity := by
    intro id order'' horder''
    obtain ⟨order', horder', hid', hclient', hname'⟩ := h'.identity id order'' horder''
    obtain ⟨order, horder, hid, hclient, hname⟩ := h.identity id order' horder'
    exact ⟨order, horder, hid'.trans hid, hclient'.trans hclient, hname'.trans hname⟩
  parties := by
    intro trade htrade id hnames
    rcases List.mem_append.mp htrade with htrade | htrade
    · exact h.parties trade htrade id hnames
    · intro hnone
      exact h'.parties trade htrade id hnames (h.gone id hnone).1
  kept := by
    intro id order hne horder
    obtain ⟨order', hseen, htrades, hleft⟩ := h.kept id order hne horder
    cases hgone : manager'.orderMap id with
    | none =>
        -- what is gone neither trades nor changes
        obtain ⟨hgone', heq⟩ := h'.gone id hgone
        refine ⟨order', ?_, htrades.append (Order.Trades.none order' ?_), fun _ => hleft hgone⟩
        · rw [lastSeen_of_gone hgone', heq, ← lastSeen_of_gone hgone, hseen]
        · exact fun trade htrade hnames => h'.parties trade htrade id hnames hgone
    | some order₁ =>
        obtain rfl : order₁ = order' := by
          rw [lastSeen_of_orderMap hgone] at hseen
          exact Option.some.inj hseen
        obtain ⟨order'', hseen', htrades', hleft'⟩ := h'.kept id order₁ hne hgone
        exact ⟨order'', hseen', htrades.append htrades', hleft'⟩

theorem Serves.addressed (h : manager.Serves own trades manager') (haddressed : manager.Addressed) :
    manager'.Addressed := by
  intro id order' horder'
  obtain ⟨order, horder, hid, _⟩ := h.identity id order' horder'
  exact hid.trans (haddressed id order horder)

/-- An order of which nothing is left stays so. -/
theorem Serves.exhausted (h : manager.Serves own trades manager') (hne : id ≠ own)
    (hexhausted : manager.Exhausted id) : manager'.Exhausted id := by
  obtain ⟨order, hseen, hzero⟩ := hexhausted
  cases horder : manager.orderMap id with
  | none =>
      obtain ⟨hgone, heq⟩ := h.gone id horder
      refine ⟨order, ?_, hzero⟩
      rw [lastSeen_of_gone hgone, heq, ← lastSeen_of_gone horder, hseen]
  | some order₁ =>
      obtain rfl : order₁ = order := by
        rw [lastSeen_of_orderMap horder] at hseen
        exact Option.some.inj hseen
      obtain ⟨order', hseen', htrades, _⟩ := h.kept id order₁ hne horder
      refine ⟨order', hseen', Quantity.eq_zero_iff.mpr ?_⟩
      have hquantity := htrades.quantity
      rw [hzero, UInt64.toNat_zero] at hquantity
      omega

/-- Writing to an object that is there. -/
theorem serves_write (horder : manager.orderMap id = some order)
    (hid : order'.coreOrderId = order.coreOrderId) (hclient : order'.clientId = order.clientId)
    (hname : order'.clientOrderId = order.clientOrderId)
    (hparties : ∀ trade ∈ trades, ∀ id, trade.Names id → manager.orderMap id ≠ none)
    (hothers : ∀ trade ∈ trades, ∀ other, trade.Names other → other = own ∨ other = id)
    (htrades : id ≠ own → order.Trades trades id order') :
    manager.Serves own trades (manager.write id order') where
  gone := by
    intro id' hnone
    have hne : id' ≠ id := by
      rintro rfl
      simp [horder] at hnone
    exact ⟨by rwa [write_orderMap_of_ne manager order' hne], rfl⟩
  identity := by
    intro id' order₁ horder₁
    by_cases heq : id' = id
    · subst heq
      rw [write_orderMap_self] at horder₁
      obtain rfl := Option.some.inj horder₁
      exact ⟨order, horder, hid, hclient, hname⟩
    · rw [write_orderMap_of_ne manager order' heq] at horder₁
      exact ⟨order₁, horder₁, rfl, rfl, rfl⟩
  parties := hparties
  kept := by
    intro id' order₁ hne horder₁
    by_cases heq : id' = id
    · subst heq
      obtain rfl : order = order₁ := Option.some.inj (horder.symm.trans horder₁)
      exact ⟨order', write_lastSeen_self manager id' order', htrades hne, by simp⟩
    · refine ⟨order₁, ?_, Order.Trades.none order₁ ?_, ?_⟩
      · rw [write_lastSeen_of_ne manager order' heq, lastSeen_of_orderMap horder₁]
      · intro trade htrade hnames
        rcases hothers trade htrade id' hnames with hother | hother
        · exact hne hother
        · exact heq hother
      · rw [write_orderMap_of_ne manager order' heq]
        simp [horder₁]

/-- Removing the order itself, or one of which nothing is left. -/
theorem serves_removeOrderById (h : id ≠ own → ∀ order, manager.orderMap id = some order →
      order.remainingQuantity = 0) : manager.Serves own [] (manager.removeOrderById id) where
  gone := by
    intro id' hnone
    refine ⟨?_, ?_⟩
    · rw [removeOrderById_orderMap, hnone, ite_self]
    · have hseen := removeOrderById_lastSeen manager id id'
      have hgone : (manager.removeOrderById id).orderMap id' = none := by
        rw [removeOrderById_orderMap, hnone, ite_self]
      rwa [lastSeen_of_gone hgone, lastSeen_of_gone hnone] at hseen
  identity := fun _ order' horder' =>
    ⟨order', (orderMap_of_removeOrderById horder').2, rfl, rfl, rfl⟩
  parties := by simp
  kept := by
    intro id' order hne horder
    refine ⟨order, ?_, Order.Trades.none order (by simp), fun hnone => ?_⟩
    · rw [removeOrderById_lastSeen, lastSeen_of_orderMap horder]
    · rw [removeOrderById_orderMap] at hnone
      split_ifs at hnone with heq
      · subst heq
        exact h hne order horder
      · simp [horder] at hnone

end OrderManager

/-! ## The matcher -/

namespace Matcher

variable {clock : Clock} {own resting : OrderID} {m m' : MatchState P} {trades : List (Trade P)}

/-- The match has made `trades` for the order `own`. -/
structure Goes (own : OrderID) (trades : List (Trade P)) (m m' : MatchState P) : Prop where
  made : m'.trades = m.trades ++ trades
  serves : m.manager.Serves own trades m'.manager

theorem Goes.refl (own : OrderID) (m : MatchState P) : Goes own [] m m :=
  ⟨by rw [List.append_nil], .refl own m.manager⟩

theorem Goes.trans {trades' : List (Trade P)} {m'' : MatchState P} (h : Goes own trades m m')
    (h' : Goes own trades' m' m'') : Goes own (trades ++ trades') m m'' :=
  ⟨by rw [h'.made, h.made, List.append_assoc], h.serves.trans h'.serves⟩

theorem takes_tradeOf (clock : Clock) (incoming order : Order P) (tradeId : TradeID) (tick : ℕ)
    {amount : ℕ} (hamount : amount < 2 ^ 64) :
    (tradeOf clock incoming order amount tradeId tick).takes order.coreOrderId = amount := by
  have hnames : (tradeOf clock incoming order amount tradeId tick).buyOrderId = order.coreOrderId ∨
      (tradeOf clock incoming order amount tradeId tick).sellOrderId = order.coreOrderId := by
    by_cases hside : incoming.side = .buy <;> simp [tradeOf, hside]
  rw [Trade.takes, if_pos hnames]
  exact UInt64.toNat_ofNat_of_lt' hamount

theorem names_tradeOf {incoming order : Order P} {amount : ℕ} {tradeId : TradeID} {tick : ℕ}
    {id : OrderID} (h : (tradeOf clock incoming order amount tradeId tick).Names id) :
    id = incoming.coreOrderId ∨ id = order.coreOrderId := by
  by_cases hside : incoming.side = .buy <;>
    simp only [Trade.Names, tradeOf, hside, if_true, if_false] at h
  · exact h.imp Eq.symm Eq.symm
  · exact h.symm.imp Eq.symm Eq.symm

/-- A fill of two orders. -/
theorem settleOne_goes {incoming order : Order P}
    (hi : m.manager.orderMap incoming.coreOrderId = some incoming)
    (hr : m.manager.orderMap order.coreOrderId = some order)
    (hne : order.coreOrderId ≠ incoming.coreOrderId) {amount : ℕ}
    (hamount : amount ≤ order.openQuantity) :
    Goes incoming.coreOrderId
      [tradeOf clock incoming order amount (m.currentId + 1) m.ticks] m
      (settleOne clock incoming m (order, amount)) where
  made := rfl
  serves := by
    have hwrite : m.manager.Serves incoming.coreOrderId []
        (m.manager.write incoming.coreOrderId (incoming.takeFill amount)) := by
      refine OrderManager.serves_write hi ?_ ?_ ?_ ?_ ?_ ?_
      · rfl
      · rfl
      · rfl
      · simp
      · simp
      · exact fun h => absurd rfl h
    have hr' : (m.manager.write incoming.coreOrderId (incoming.takeFill amount)).orderMap
        order.coreOrderId = some order := by
      rw [OrderManager.write_orderMap_of_ne _ _ hne, hr]
    apply hwrite.trans
    refine OrderManager.serves_write hr' ?_ ?_ ?_ ?_ ?_ ?_
    · rfl
    · rfl
    · rfl
    · rintro trade htrade id hnames
      rw [List.mem_singleton.mp htrade] at hnames
      rcases names_tradeOf hnames with rfl | rfl
      · simp
      · simp [hr']
    · rintro trade htrade id hnames
      rw [List.mem_singleton.mp htrade] at hnames
      exact names_tradeOf hnames
    · intro _
      have htakes := takes_tradeOf clock incoming order (m.currentId + 1) m.ticks
        (hamount.trans_lt order.openQuantity_lt)
      refine ⟨rfl, ?_, fun hnone => ?_⟩
      · have hleft := Order.openQuantity_giveFill hamount
        simp only [Order.openQuantity] at hleft hamount
        simp only [taken, List.map_cons, List.map_nil, List.sum_cons, List.sum_nil, htakes]
        omega
      · have hnames : (tradeOf clock incoming order amount (m.currentId + 1) m.ticks).Names
            order.coreOrderId := by
          by_cases hside : incoming.side = .buy <;> simp [Trade.Names, tradeOf, hside]
        exact absurd hnames (hnone _ (List.mem_singleton_self _))

theorem modify_eq_some {manager manager' : OrderManager P} {f : Order P → Order P}
    (h : manager.modify own f = some manager') :
    ∃ order, manager.orderMap own = some order ∧ manager' = manager.write own (f order) := by
  obtain ⟨order, horder, rfl⟩ := Option.map_eq_some_iff.mp h
  exact ⟨order, horder, rfl⟩

/-- One pass of the inner loop, whatever the two pointers are. -/
theorem fillFront_goes (haddressed : m.manager.Addressed)
    (h : fillFront clock own resting m = some m') : ∃ trades, Goes own trades m m' := by
  obtain ⟨incoming, hi, order, hr, _⟩ : ∃ incoming, m.manager.orderMap own = some incoming ∧
      ∃ order, m.manager.orderMap resting = some order ∧ True := by
    simp only [fillFront, OrderManager.deref, Option.bind_eq_bind, Option.bind_eq_some_iff] at h
    obtain ⟨incoming, hi, order, hr, _⟩ := h
    exact ⟨incoming, hi, order, hr, trivial⟩
  have hown := haddressed _ _ hi
  have hresting := haddressed _ _ hr
  by_cases hne : resting = own
  · -- the order meets itself, and both writes go to it
    subst hne
    obtain rfl : incoming = order := Option.some.inj (hi.symm.trans hr)
    simp only [fillFront, OrderManager.deref, hi, Option.bind_eq_bind, Option.bind_some,
      OrderManager.modify_eq hi,
      OrderManager.modify_eq (OrderManager.write_orderMap_self _ _ _),
      OrderManager.write_write, Option.pure_def, Option.some.injEq] at h
    subst h
    refine ⟨_, rfl, OrderManager.serves_write hi ?_ ?_ ?_ ?_ ?_ fun h => absurd rfl h⟩
    · rfl
    · rfl
    · rfl
    · intro trade htrade id hnames
      rw [List.mem_singleton.mp htrade] at hnames
      have hid : id = resting := by
        by_cases hside : incoming.side = .buy <;> simp [Trade.Names, hside, hown] at hnames <;>
          exact hnames.symm
      simp [hid, hi]
    · intro trade htrade id hnames
      rw [List.mem_singleton.mp htrade] at hnames
      by_cases hside : incoming.side = .buy <;> simp [Trade.Names, hside, hown] at hnames <;>
        exact Or.inl hnames.symm
  · subst hown hresting
    rw [fillFront_eq hi hr fun heq => hne heq.symm] at h
    obtain rfl := Option.some.inj h
    exact ⟨_, settleOne_goes hi hr hne (Nat.min_le_right _ _)⟩

theorem Goes.addressed (h : Goes own trades m m') (haddressed : m.manager.Addressed) :
    m'.manager.Addressed :=
  h.serves.addressed haddressed

/-- An order leaves a level when nothing is left of it. -/
theorem matchLevel_goes {level level' : PriceLevel} (haddressed : m.manager.Addressed)
    (h : matchLevel clock own m level = some (m', level')) :
    ∃ trades, Goes own trades m m' ∧
      ∀ id ∈ level, id ≠ own → id ∈ level' ∨ m'.manager.Exhausted id := by
  induction level generalizing m with
  | nil =>
      obtain ⟨rfl, rfl⟩ := Prod.mk.inj (Option.some.inj h)
      exact ⟨[], .refl own m, by simp⟩
  | cons first level ih =>
      simp only [matchLevel, Option.bind_eq_bind, Option.bind_eq_some_iff] at h
      obtain ⟨incoming, _, h⟩ := h
      split_ifs at h with hopen
      · obtain ⟨m₁, hfill, h⟩ := Option.bind_eq_some_iff.mp h
        obtain ⟨order, horder, h⟩ := Option.bind_eq_some_iff.mp h
        obtain ⟨trades, hgoes⟩ := fillFront_goes haddressed hfill
        split_ifs at h with hzero
        · obtain ⟨trades', hgoes', hlevel⟩ := ih (hgoes.addressed haddressed) h
          refine ⟨_, hgoes.trans hgoes', fun id hid hne => ?_⟩
          rcases List.mem_cons.mp hid with rfl | hid
          · have hexhausted : m₁.manager.Exhausted id :=
              ⟨order, OrderManager.lastSeen_of_orderMap horder, hzero⟩
            exact Or.inr (hgoes'.serves.exhausted hne hexhausted)
          · exact hlevel id hid hne
        · obtain ⟨rfl, rfl⟩ := Prod.mk.inj (Option.some.inj h)
          exact ⟨trades, hgoes, fun id hid _ => Or.inl hid⟩
      · obtain ⟨rfl, rfl⟩ := Prod.mk.inj (Option.some.inj h)
        exact ⟨[], .refl own m, fun id hid _ => Or.inl hid⟩

theorem matchLevels_goes [LT P] [DecidableLT P] {map map' : PriceMap P}
    (haddressed : m.manager.Addressed) (h : matchLevels clock own m map = some (m', map')) :
    ∃ trades, Goes own trades m m' ∧
      ∀ id ∈ Levels.queue map, id ≠ own → id ∈ Levels.queue map' ∨ m'.manager.Exhausted id := by
  induction map generalizing m map' with
  | nil =>
      obtain ⟨rfl, rfl⟩ := Prod.mk.inj (Option.some.inj h)
      exact ⟨[], .refl own m, by simp⟩
  | cons l map ih =>
      simp only [matchLevels, Option.bind_eq_bind, Option.bind_eq_some_iff] at h
      obtain ⟨incoming, _, h⟩ := h
      split_ifs at h with hgoesOn
      · obtain ⟨⟨m₁, level⟩, hlevel, h⟩ := Option.bind_eq_some_iff.mp h
        obtain ⟨⟨m₂, rest⟩, hrest, h⟩ := Option.bind_eq_some_iff.mp h
        obtain ⟨rfl, rfl⟩ := Prod.mk.inj (Option.some.inj h)
        obtain ⟨trades, hgoes, hkeptLevel⟩ := matchLevel_goes haddressed hlevel
        obtain ⟨trades', hgoes', hkeptRest⟩ := ih (hgoes.addressed haddressed) hrest
        have hqueue : ∀ id, id ∈ Levels.queue (if level.isEmpty then rest
            else (l.1, level) :: rest) ↔ id ∈ level ∨ id ∈ Levels.queue rest := by
          intro id
          cases level <;> simp [or_assoc]
        refine ⟨_, hgoes.trans hgoes', fun id hid hne => ?_⟩
        rw [hqueue]
        rw [Levels.queue_cons, List.mem_append] at hid
        rcases hid with hid | hid
        · rcases hkeptLevel id hid hne with hid | hexhausted
          · exact Or.inl (Or.inl hid)
          · exact Or.inr (hgoes'.serves.exhausted hne hexhausted)
        · exact (hkeptRest id hid hne).imp_left Or.inr
      · obtain ⟨rfl, rfl⟩ := Prod.mk.inj (Option.some.inj h)
        exact ⟨[], .refl own m, fun id hid _ => Or.inl hid⟩

/-- The match makes trades for its order, and takes an order from the book when
nothing is left of it. -/
theorem matchOrder_goes [LT P] [DecidableLT P] {orderBook orderBook' : OrderBook P}
    (haddressed : m.manager.Addressed)
    (h : matchOrder clock own m orderBook = some (m', orderBook')) :
    ∃ trades, Goes own trades m m' ∧ ∀ id, id ≠ own → orderBook.Contains id →
      orderBook'.Contains id ∨ m'.manager.Exhausted id := by
  simp only [matchOrder, matchTable, Option.bind_eq_bind, Option.bind_eq_some_iff] at h
  obtain ⟨incoming, _, ⟨m₂, map⟩, ⟨⟨m₁, map₁⟩, hlevels, manager, hmodify, h₂⟩, h⟩ := h
  obtain ⟨rfl, rfl⟩ := Prod.mk.inj (Option.some.inj h₂)
  obtain ⟨rfl, rfl⟩ := Prod.mk.inj (Option.some.inj h)
  obtain ⟨trades, hgoes, hkept⟩ := matchLevels_goes haddressed hlevels
  obtain ⟨order, horder, rfl⟩ := modify_eq_some hmodify
  have hstatus : m₁.manager.Serves own [] (m₁.manager.write own
      (order.setStatus (finalStatus order))) := by
    refine OrderManager.serves_write horder ?_ ?_ ?_ ?_ ?_ ?_
    · rfl
    · rfl
    · rfl
    · simp
    · simp
    · exact fun h => absurd rfl h
  refine ⟨trades, ⟨hgoes.made, ?_⟩, fun id hne hid => ?_⟩
  · have hserves := hgoes.serves.trans hstatus
    rwa [List.append_nil] at hserves
  · obtain ⟨side, hside⟩ := OrderBook.contains_iff.mp hid
    by_cases hsame : side = incoming.side.opposite
    · subst hsame
      refine (hkept id hside hne).imp (fun hmem => ?_) (hstatus.exhausted hne)
      apply OrderBook.contains_iff.mpr
      exact ⟨incoming.side.opposite, by rwa [OrderBook.sideMap_setSideMap_self]⟩
    · refine Or.inl (OrderBook.contains_iff.mpr ⟨side, ?_⟩)
      rwa [OrderBook.sideMap_setSideMap_of_ne _ hsame]

end Matcher

/-! ## Taking an order off the book -/

namespace OrderBook

variable {manager : OrderManager P} {id orderId : OrderID} {found : Option OrderPtr}

theorem mem_of_findAndErase {level level' : PriceLevel} (haddressed : manager.Addressed)
    (h : findAndErase manager orderId level = some (found, level')) (hne : id ≠ orderId)
    (hid : id ∈ level) : id ∈ level' := by
  induction level generalizing found level' with
  | nil => cases hid
  | cons ptr orders ih =>
      simp only [findAndErase, Option.bind_eq_bind, Option.bind_eq_some_iff] at h
      obtain ⟨order, horder, h⟩ := h
      split_ifs at h with hfound
      · obtain ⟨rfl, rfl⟩ := Prod.mk.inj (Option.some.inj h)
        refine (List.mem_cons.mp hid).resolve_left ?_
        rintro rfl
        exact hne ((haddressed _ _ horder).symm.trans hfound)
      · obtain ⟨⟨found', orders'⟩, hrest, h⟩ := Option.bind_eq_some_iff.mp h
        obtain ⟨rfl, rfl⟩ := Prod.mk.inj (Option.some.inj h)
        rcases List.mem_cons.mp hid with rfl | hid
        · exact List.mem_cons_self
        · exact List.mem_cons_of_mem _ (ih hrest hid)

theorem mem_of_cancelInMap {map map' : PriceMap P} (haddressed : manager.Addressed)
    (h : cancelInMap manager orderId map = some (found, map')) (hne : id ≠ orderId)
    (hid : id ∈ Levels.queue map) : id ∈ Levels.queue map' := by
  induction map generalizing found map' with
  | nil => simp at hid
  | cons l map ih =>
      simp only [cancelInMap, Option.bind_eq_bind, Option.bind_eq_some_iff] at h
      obtain ⟨⟨found', orders⟩, hlevel, h⟩ := h
      rw [Levels.queue_cons, List.mem_append] at hid
      cases found' with
      | some ptr =>
          obtain ⟨rfl, rfl⟩ := Prod.mk.inj (Option.some.inj h)
          have hkept := hid.imp_left (mem_of_findAndErase haddressed hlevel hne)
          cases orders with
          | nil => exact hkept.resolve_left List.not_mem_nil
          | cons first orders => simpa [or_assoc] using hkept
      | none =>
          obtain ⟨⟨found'', map''⟩, hrest, h⟩ := Option.bind_eq_some_iff.mp h
          obtain ⟨rfl, rfl⟩ := Prod.mk.inj (Option.some.inj h)
          rw [Levels.queue_cons, List.mem_append]
          exact hid.imp (mem_of_findAndErase haddressed hlevel hne) (ih hrest)

theorem contains_of_cancelOrder {book book' : OrderBook P} {now : Timestamp}
    {refresh : Option (MarketDataIncrementalRefresh P)} (haddressed : manager.Addressed)
    (h : book.cancelOrder manager orderId now = some (book', refresh)) (hne : id ≠ orderId)
    (hid : book.Contains id) : book'.Contains id := by
  obtain ⟨⟨found, bidMap⟩, hbid, h⟩ := Option.bind_eq_some_iff.mp h
  obtain ⟨askMap, hask, rfl⟩ : ∃ askMap,
      (id ∈ Levels.queue book.askMap → id ∈ Levels.queue askMap) ∧
        book' = ⟨book.symbol, bidMap, askMap⟩ := by
    cases found with
    | some ptr =>
        obtain ⟨order, _, h⟩ := Option.bind_eq_some_iff.mp h
        exact ⟨book.askMap, fun hmem => hmem, (Prod.mk.inj (Option.some.inj h)).1.symm⟩
    | none =>
        obtain ⟨⟨found', askMap⟩, hask, h⟩ := Option.bind_eq_some_iff.mp h
        refine ⟨askMap, mem_of_cancelInMap haddressed hask hne, ?_⟩
        cases found' with
        | none => exact (Prod.mk.inj (Option.some.inj h)).1.symm
        | some ptr =>
            obtain ⟨order, _, h⟩ := Option.bind_eq_some_iff.mp h
            exact (Prod.mk.inj (Option.some.inj h)).1.symm
  exact hid.imp (mem_of_cancelInMap haddressed hbid hne) hask

end OrderBook

/-! ## The handlers -/

/-- The order is registered, for the client it names. -/
def OrderManager.Knows (manager : OrderManager P) (order : Order P) : Prop :=
  ∃ registered, manager.orderMap order.coreOrderId = some registered ∧
    registered.clientId = order.clientId

/-- The client that a rejection of the command is sent to. -/
def Command.clientId : Command P → ClientID
  | .newOrder cmd => cmd.order.clientId
  | .cancelOrder cmd => cmd.clientId
  | .modifyOrder cmd => cmd.clientId

/-- An event tells of orders of a kind, or it rejects the command. -/
def Event.Concerns (known : Order P → Prop) (cmd : Command P) : Event P → Prop
  | .published (.execution order _) => known order
  | .published (.trade _ buyOrder sellOrder) => known buyOrder ∧ known sellOrder
  | .published (.rejection orderId clientId _ _ _ _) =>
      orderId = cmd.orderId ∧ clientId = cmd.clientId
  | .enqueued (.saveOrder order) => known order
  | _ => True

theorem Event.Concerns.mono {known known' : Order P → Prop} {cmd : Command P} {event : Event P}
    (h : event.Concerns known cmd) (hsub : ∀ order, known order → known' order) :
    event.Concerns known' cmd := by
  cases event with
  | published publication =>
      cases publication with
      | execution order action => exact hsub order h
      | trade trade buyOrder sellOrder => exact ⟨hsub _ h.1, hsub _ h.2⟩
      | rejection orderId clientId symbol side reason now => exact h
  | enqueued task =>
      cases task with
      | saveOrder order => exact hsub order h
      | updateOrder order => trivial
      | removeOrder orderId => trivial
      | addTrade trade => trivial
  | refreshed refresh => trivial
  | matched trades => trivial

theorem OrderManager.Serves.knows {own : OrderID} {trades : List (Trade P)}
    {manager manager' : OrderManager P} (h : manager.Serves own trades manager') {order : Order P}
    (hknows : manager'.Knows order) : manager.Knows order := by
  obtain ⟨registered', hregistered', hclient'⟩ := hknows
  obtain ⟨registered, hregistered, _, hclient, _⟩ := h.identity _ registered' hregistered'
  exact ⟨registered, hregistered, hclient.symm.trans hclient'⟩

theorem OrderManager.Addressed.knows {manager : OrderManager P} (h : manager.Addressed)
    {id : OrderID} {order : Order P} (horder : manager.orderMap id = some order) :
    manager.Knows order :=
  ⟨order, by rw [h id order horder, horder], rfl⟩

namespace Partition

open Matcher

variable {s s' s'' : Partition P} {cmd : Command P} {events events' : List (Event P)}
  {clock : Clock}

/-- The partition after some of the work for a command. -/
structure Extends (cmd : Command P) (events : List (Event P)) (s s' : Partition P) : Prop where
  journal : s'.journal = s.journal ++ events
  concerns : ∀ event ∈ events, event.Concerns s.orderManager.Knows cmd
  serves : s.orderManager.Serves cmd.orderId (events.flatMap Event.matchedTrades) s'.orderManager
  book : ∀ id, id ≠ cmd.orderId → s.orderBook.Contains id →
    s'.orderBook.Contains id ∨ s'.orderManager.Exhausted id

theorem Extends.trans (h : Extends cmd events s s') (h' : Extends cmd events' s' s'') :
    Extends cmd (events ++ events') s s'' where
  journal := by rw [h'.journal, h.journal, List.append_assoc]
  concerns := by
    intro event hevent
    rcases List.mem_append.mp hevent with hevent | hevent
    · exact h.concerns event hevent
    · exact (h'.concerns event hevent).mono fun _ => h.serves.knows
  serves := by
    rw [List.flatMap_append]
    exact h.serves.trans h'.serves
  book := by
    intro id hne hid
    rcases h.book id hne hid with hid | hexhausted
    · exact h'.book id hne hid
    · exact Or.inr (h'.serves.exhausted hne hexhausted)

theorem Extends.addressed (h : Extends cmd events s s') (haddressed : s.orderManager.Addressed) :
    s'.orderManager.Addressed :=
  h.serves.addressed haddressed

/-- Work that leaves the orders and the book alone. -/
theorem extends_of_emitted (hjournal : s'.journal = s.journal ++ events)
    (hmanager : s'.orderManager = s.orderManager) (hbook : s'.orderBook = s.orderBook)
    (hconcerns : ∀ event ∈ events, event.Concerns s.orderManager.Knows cmd)
    (htrades : events.flatMap Event.matchedTrades = []) : Extends cmd events s s' where
  journal := hjournal
  concerns := hconcerns
  serves := by
    rw [hmanager, htrades]
    exact .refl _ _
  book := fun id _ hid => Or.inl (hbook ▸ hid)

theorem extends_refl (cmd : Command P) (s : Partition P) : Extends cmd [] s s :=
  extends_of_emitted (List.append_nil _).symm rfl rfl (by simp) rfl

theorem extends_withManager {manager : OrderManager P}
    (h : s.orderManager.Serves cmd.orderId [] manager) :
    Extends cmd [] s (s.withManager manager) where
  journal := (List.append_nil _).symm
  concerns := by simp
  serves := h
  book := fun _ _ hid => Or.inl hid

theorem extends_retire {id : OrderID} (h : id ≠ cmd.orderId → ∀ order,
      s.orderManager.orderMap id = some order → order.remainingQuantity = 0) :
    Extends cmd [.enqueued (.removeOrder id)] s (s.retire id) where
  journal := rfl
  concerns := by simp [Event.Concerns]
  serves := OrderManager.serves_removeOrderById h
  book := fun _ _ hid => Or.inl hid

theorem cancelInBook_extends {found : Bool} (haddressed : s.orderManager.Addressed)
    (h : s.cancelInBook clock cmd.orderId = some (found, s')) :
    ∃ events, Extends cmd events s s' ∧ events.flatMap Event.matchedTrades = [] := by
  obtain ⟨⟨orderBook, refresh⟩, hcancel, h⟩ := Option.bind_eq_some_iff.mp h
  have hbook : ∀ id, id ≠ cmd.orderId → s.orderBook.Contains id → orderBook.Contains id :=
    fun id hne => OrderBook.contains_of_cancelOrder haddressed hcancel hne
  cases refresh with
  | none =>
      obtain ⟨rfl, rfl⟩ := Prod.mk.inj (Option.some.inj h)
      exact ⟨[], ⟨(List.append_nil _).symm, by simp, .refl _ _,
        fun id hne hid => Or.inl (hbook id hne hid)⟩, rfl⟩
  | some refresh =>
      obtain ⟨rfl, rfl⟩ := Prod.mk.inj (Option.some.inj h)
      exact ⟨[.refreshed refresh], ⟨rfl, by simp [Event.Concerns], .refl _ _,
        fun id hne hid => Or.inl (hbook id hne hid)⟩, rfl⟩

theorem retireIfFilled_extends {order : Order P}
    (horder : s.orderManager.orderMap order.coreOrderId = some order) :
    ∃ events, Extends cmd events s
      (if order.remainingQuantity = 0 then s.retire order.coreOrderId else s) := by
  split_ifs with hzero
  · refine ⟨_, extends_retire fun _ order' horder' => ?_⟩
    rw [← Option.some.inj (horder.symm.trans horder'), hzero]
  · exact ⟨[], extends_refl cmd s⟩

theorem bookTrade_extends {trade : Trade P} (haddressed : s.orderManager.Addressed)
    (h : s.bookTrade trade = some s') : ∃ events, Extends cmd events s s' := by
  unfold bookTrade at h
  split at h
  · next buyOrder sellOrder hbuy hsell =>
      have hbuyId := haddressed _ _ hbuy
      have hsellId := haddressed _ _ hsell
      simp only [Option.bind_eq_bind, Option.bind_eq_some_iff, Option.pure_def,
        Option.some.injEq] at h
      obtain ⟨sellOrder', hsell', rfl⟩ := h
      have hpublished : Extends cmd [.enqueued (.updateOrder buyOrder),
          .enqueued (.updateOrder sellOrder), .published (.trade trade buyOrder sellOrder)] s
          (((s.enqueue (.updateOrder buyOrder)).enqueue (.updateOrder sellOrder)).publish
            (.trade trade buyOrder sellOrder)) := by
        refine extends_of_emitted ?_ rfl rfl ?_ rfl
        · simp [enqueue, publish, emit]
        · simp [Event.Concerns, haddressed.knows hbuy, haddressed.knows hsell]
      have hbuy' : (((s.enqueue (.updateOrder buyOrder)).enqueue (.updateOrder sellOrder)).publish
          (.trade trade buyOrder sellOrder)).orderManager.orderMap buyOrder.coreOrderId =
            some buyOrder := by
        rw [hbuyId]
        exact hbuy
      obtain ⟨events, hbuyer⟩ := retireIfFilled_extends hbuy'
      have hbooked := hpublished.trans hbuyer
      -- an order that left with the buy order is not there to be read again
      have hsellId' := hbooked.addressed haddressed _ _ hsell'
      rw [← hsellId'] at hsell'
      obtain ⟨events', hseller⟩ := retireIfFilled_extends hsell'
      exact ⟨_, hbooked.trans hseller⟩
  · obtain rfl := Option.some.inj h
    exact ⟨[], extends_refl cmd s⟩

theorem bookTrades_extends {postTrade : Partition P → Trade P → Partition P}
    (hpost : ∀ s trade, ∃ events, Extends cmd events s (postTrade s trade))
    {trades : List (Trade P)} (haddressed : s.orderManager.Addressed)
    (h : bookTrades postTrade s trades = some s') : ∃ events, Extends cmd events s s' := by
  induction trades generalizing s with
  | nil =>
      obtain rfl := Option.some.inj h
      exact ⟨[], extends_refl cmd s⟩
  | cons trade trades ih =>
      obtain ⟨s₁, hbook, h⟩ := Option.bind_eq_some_iff.mp h
      obtain ⟨events, hcalled⟩ := hpost s trade
      obtain ⟨events', hbooked⟩ := bookTrade_extends (hcalled.addressed haddressed) hbook
      have hfirst := hcalled.trans hbooked
      obtain ⟨events'', hrest⟩ := ih (hfirst.addressed haddressed) h
      exact ⟨_, hfirst.trans hrest⟩

theorem emit_extends {event : Event P} (hconcerns : event.Concerns s.orderManager.Knows cmd)
    (htrades : event.matchedTrades = []) : Extends cmd [event] s (s.emit [event]) := by
  refine extends_of_emitted rfl rfl rfl ?_ ?_
  · simpa using hconcerns
  · simpa using htrades

theorem publish_extends {order : Order P} (h : s.orderManager.Knows order) (action : String) :
    Extends cmd [.published (.execution order action)] s (s.publish (.execution order action)) :=
  emit_extends h rfl

/-- Both handlers save an order and publish it before they match it. -/
theorem admission_extends {order : Order P} (h : s.orderManager.Knows order) (action : String) :
    Extends cmd [.enqueued (.saveOrder order), .published (.execution order action)] s
      ((s.enqueue (.saveOrder order)).publish (.execution order action)) := by
  refine extends_of_emitted ?_ rfl rfl ?_ rfl
  · simp [enqueue, publish, emit]
  · simp [Event.Concerns, h]

theorem publishRejection_extends (symbol : Instrument) (side : OrderSide) (reason : String) :
    ∃ events, Extends cmd events s
      (s.publishRejection clock cmd.orderId cmd.clientId symbol side reason) ∧
        events.flatMap Event.matchedTrades = [] := by
  refine ⟨[.published (.rejection cmd.orderId cmd.clientId symbol side reason (clock s.ticks))],
    extends_of_emitted rfl rfl rfl ?_ rfl, rfl⟩
  simp [Event.Concerns]

section Handlers

variable [PriceArith P] {own : OrderID} {trades : List (Trade P)}

theorem matchOrder_extends (haddressed : s.orderManager.Addressed)
    (h : s.matchOrder clock cmd.orderId = some (s', trades)) :
    ∃ events, Extends cmd events s s' := by
  obtain ⟨⟨m, orderBook⟩, hmatch, h⟩ := Option.bind_eq_some_iff.mp h
  obtain ⟨rfl, rfl⟩ := Prod.mk.inj (Option.some.inj h)
  obtain ⟨made, hgoes, hbook⟩ := matchOrder_goes haddressed hmatch
  have hmade : m.trades = made := hgoes.made
  refine ⟨[.matched m.trades], rfl, by simp [Event.Concerns], ?_, hbook⟩
  simpa [Event.matchedTrades, hmade] using hgoes.serves

theorem insertIfOpen_extends {ptr : OrderPtr} (h : s.insertIfOpen ptr = some s') :
    ∃ events, Extends cmd events s s' := by
  unfold insertIfOpen at h
  split at h
  · obtain rfl := Option.some.inj h
    exact ⟨[], extends_refl cmd s⟩
  · split_ifs at h
    · obtain ⟨⟨orderBook, refresh⟩, hinsert, h⟩ := Option.bind_eq_some_iff.mp h
      obtain rfl := Option.some.inj h
      obtain ⟨order, _, hbook⟩ := Option.bind_eq_some_iff.mp hinsert
      obtain ⟨rfl, rfl⟩ := Prod.mk.inj (Option.some.inj hbook)
      refine ⟨[.refreshed _], rfl, by simp [Event.Concerns], .refl _ _, fun id _ hid => Or.inl ?_⟩
      obtain ⟨side, hside⟩ := OrderBook.contains_iff.mp hid
      refine OrderBook.contains_iff.mpr ⟨side, ?_⟩
      rw [OrderBook.sideMap_setSideMap]
      split_ifs with hsame
      · subst hsame
        exact (Levels.mem_queue_pushBack _ _ _).mpr (Or.inr hside)
      · exact hside
    · obtain rfl := Option.some.inj h
      exact ⟨[], extends_refl cmd s⟩

omit [PriceArith P] in
theorem postTradeUpdate_extends (s : Partition P) (trade : Trade P) :
    Extends cmd [.enqueued (.addTrade trade)] s (s.postTradeUpdate trade) :=
  extends_of_emitted rfl rfl rfl (by simp [Event.Concerns]) rfl

theorem resume_extends (haddressed : s.orderManager.Addressed)
    (h : s.resume trades cmd = some s') : ∃ events, Extends cmd events s s' := by
  cases cmd with
  | newOrder c =>
      simp only [resume, Option.bind_eq_bind, Option.bind_eq_some_iff] at h
      obtain ⟨s₁, hbook, h⟩ := h
      obtain ⟨events, hbooked⟩ : ∃ events, Extends (.newOrder c) events s s₁ :=
        bookTrades_extends (fun s trade => ⟨_, postTradeUpdate_extends s trade⟩) haddressed hbook
      obtain ⟨s₂, hinsert, h⟩ : ∃ s₂, (∃ events, Extends (.newOrder c) events s₁ s₂) ∧
          (if c.order.orderType = .market ∧
            s₂.orderManager.containsOrderById c.order.coreOrderId then
              s₂.retire c.order.coreOrderId else s₂) = s' := by
        split_ifs at h with hlimit
        · obtain ⟨s₂, hinsert, h⟩ := Option.bind_eq_some_iff.mp h
          exact ⟨s₂, insertIfOpen_extends hinsert, Option.some.inj h⟩
        · exact ⟨s₁, ⟨[], extends_refl _ s₁⟩, Option.some.inj h⟩
      obtain ⟨events', hinserted⟩ := hinsert
      subst h
      split_ifs
      · exact ⟨_, (hbooked.trans hinserted).trans (extends_retire fun hne => absurd rfl hne)⟩
      · exact ⟨_, hbooked.trans hinserted⟩
  | cancelOrder c =>
      obtain rfl := Option.some.inj h
      exact ⟨[], extends_refl _ s⟩
  | modifyOrder c =>
      simp only [resume, Option.bind_eq_bind, Option.bind_eq_some_iff] at h
      obtain ⟨s₁, hbook, s₂, hinsert, h⟩ := h
      obtain ⟨events, hbooked⟩ : ∃ events, Extends (.modifyOrder c) events s s₁ :=
        bookTrades_extends (fun s trade => ⟨[], extends_refl _ s⟩) haddressed hbook
      obtain ⟨events', hinserted⟩ := insertIfOpen_extends hinsert
      have hboth := hbooked.trans hinserted
      split at h
      · obtain rfl := Option.some.inj h
        exact ⟨_, hboth⟩
      · obtain rfl := Option.some.inj h
        split_ifs
        · exact ⟨_, hboth.trans (extends_retire fun hne => absurd rfl hne)⟩
        · exact ⟨_, hboth⟩

/-- The partition once the order that a command brings in is registered. -/
def admitted (s : Partition P) : Command P → Partition P
  | .newOrder cmd => s.withManager (s.orderManager.write cmd.order.coreOrderId cmd.order)
  | _ => s

omit [PriceArith P] in
theorem admitted_addressed (haddressed : s.orderManager.Addressed) (cmd : Command P) :
    (s.admitted cmd).orderManager.Addressed := by
  cases cmd with
  | newOrder c =>
      intro id order horder
      by_cases hid : id = c.order.coreOrderId
      · subst hid
        rw [admitted, withManager, OrderManager.write_orderMap_self] at horder
        rw [← Option.some.inj horder]
      · rw [admitted, withManager, OrderManager.write_orderMap_of_ne _ _ hid] at horder
        exact haddressed id order horder
  | cancelOrder c => exact haddressed
  | modifyOrder c => exact haddressed

theorem matchCall_extends {t : Partition P} (haddressed : s.orderManager.Addressed)
    (h : matchCall clock s cmd = some (t, own)) :
    own = cmd.orderId ∧ (∀ c, cmd = .newOrder c →
      s.orderManager.orderMap c.order.coreOrderId = none) ∧
        ∃ events, Extends cmd events (s.admitted cmd) t := by
  cases cmd with
  | newOrder c =>
      simp only [matchCall, Option.bind_eq_bind, Option.bind_eq_some_iff] at h
      obtain ⟨passed, _, h⟩ := h
      cases passed with
      | false => simp at h
      | true =>
          cases hfree : s.orderManager.orderMap c.order.coreOrderId with
          | some order =>
              simp [OrderManager.addOrder, OrderManager.containsOrderById, hfree] at h
          | none =>
              simp only [OrderManager.addOrder_eq hfree, Bool.not_true, Bool.false_eq_true,
                if_false, Option.pure_def, Option.some.injEq, Prod.mk.injEq] at h
              obtain ⟨rfl, rfl⟩ := h
              refine ⟨rfl, fun c' hc' => by cases hc'; exact hfree, _, admission_extends ?_ "NEW"⟩
              exact ⟨c.order, OrderManager.write_orderMap_self _ _ _, rfl⟩
  | cancelOrder c => simp [matchCall] at h
  | modifyOrder c =>
      simp only [matchCall, Option.bind_eq_bind, Option.bind_eq_some_iff] at h
      obtain ⟨old, hold, ⟨cancelled, s₁⟩, hcancel, manager, hmanager, order, horder, h⟩ := h
      obtain ⟨rfl, rfl⟩ := Prod.mk.inj (Option.some.inj h)
      refine ⟨rfl, by simp, ?_⟩
      obtain ⟨events, hcancelled, _⟩ : ∃ events, Extends (.modifyOrder c) events s s₁ ∧ _ :=
        cancelInBook_extends haddressed hcancel
      have haddressed₁ := hcancelled.addressed haddressed
      have hremoved : Extends (.modifyOrder c) _ s₁ (s₁.enqueue (.removeOrder c.orderId)) :=
        emit_extends trivial rfl
      obtain ⟨old₁, hold₁, rfl⟩ := modify_eq_some hmanager
      have hwritten : s₁.orderManager.Serves c.orderId [] (s₁.orderManager.write c.orderId
          (((old₁.setPrice c.newPrice).setOriginalQuantity c.newQuantity).setStatus .new)) := by
        refine OrderManager.serves_write hold₁ ?_ ?_ ?_ ?_ ?_ ?_
        · rfl
        · rfl
        · rfl
        · simp
        · simp
        · exact fun hne => absurd rfl hne
      have hrewritten := (hcancelled.trans hremoved).trans (extends_withManager hwritten)
      have haddressed₂ := hrewritten.addressed haddressed
      have hknows := haddressed₂.knows horder
      exact ⟨_, hrewritten.trans (admission_extends hknows _)⟩

/-- A cancel makes no trade. -/
theorem processCancelOrder_extends {c : CancelOrder} (haddressed : s.orderManager.Addressed)
    (h : processCommand clock s (.cancelOrder c) = some s') :
    ∃ events, Extends (.cancelOrder c) events s s' ∧ events.flatMap Event.matchedTrades = [] := by
  simp only [processCommand, processCancelOrder] at h
  split at h
  · obtain rfl := Option.some.inj h
    exact publishRejection_extends .eurusd .buy _
  · simp only [Option.bind_eq_bind, Option.bind_eq_some_iff] at h
    obtain ⟨⟨cancelled, s₁⟩, hcancel, order, horder, h⟩ := h
    obtain ⟨events, hcancelled, hnone⟩ : ∃ events, Extends (.cancelOrder c) events s s₁ ∧
        events.flatMap Event.matchedTrades = [] := cancelInBook_extends haddressed hcancel
    have hknows := (hcancelled.addressed haddressed).knows horder
    split_ifs at h
    · obtain rfl := Option.some.inj h
      refine ⟨_, (hcancelled.trans (publish_extends hknows _)).trans
        (extends_retire fun hne => absurd rfl hne), ?_⟩
      simp [hnone, Event.matchedTrades]
    · obtain rfl := Option.some.inj h
      obtain ⟨events', hrejected, hnone'⟩ : ∃ events, Extends (.cancelOrder c) events s₁ _ ∧ _ :=
        publishRejection_extends order.symbol order.side "Order cannot be canceled"
      refine ⟨_, hcancelled.trans hrejected, ?_⟩
      rw [List.flatMap_append, hnone, hnone', List.append_nil]

/-- What a command does is work for the order it is about, once that order is
registered. -/
theorem processCommand_extends (haddressed : s.orderManager.Addressed)
    (h : processCommand clock s cmd = some s') :
    (∃ events, Extends cmd events s s') ∨
      ((∀ c, cmd = .newOrder c → s.orderManager.orderMap c.order.coreOrderId = none) ∧
        ∃ events, Extends cmd events (s.admitted cmd) s') := by
  cases hcall : matchCall clock s cmd with
  | some call =>
      obtain ⟨t, own⟩ := call
      obtain ⟨rfl, hfree, events, hprepared⟩ := matchCall_extends haddressed hcall
      rw [processCommand_of_matchCall hcall] at h
      obtain ⟨⟨t', trades⟩, hmatch, h⟩ := Option.bind_eq_some_iff.mp h
      have haddressed₁ := hprepared.addressed (admitted_addressed haddressed cmd)
      obtain ⟨events', hmatched⟩ := matchOrder_extends haddressed₁ hmatch
      obtain ⟨events'', hresumed⟩ := resume_extends (hmatched.addressed haddressed₁) h
      exact Or.inr ⟨hfree, _, (hprepared.trans hmatched).trans hresumed⟩
  | none =>
      refine Or.inl ?_
      cases cmd with
      | newOrder c =>
          simp only [processCommand, processNewOrder, Option.bind_eq_bind,
            Option.bind_eq_some_iff] at h
          obtain ⟨passed, hpassed, h⟩ := h
          cases passed with
          | false =>
              obtain rfl := Option.some.inj h
              exact (publishRejection_extends c.order.symbol c.order.side _).imp fun _ h => h.1
          | true =>
              -- the order is refused by the manager, and the handler reads it
              cases hadd : s.orderManager.addOrder c.order with
              | mk added manager => cases added <;> simp [matchCall, hpassed, hadd] at hcall h
      | cancelOrder c => exact (processCancelOrder_extends haddressed h).imp fun _ h => h.1
      | modifyOrder c =>
          cases hold : s.orderManager.getOrderById c.orderId with
          | none =>
              simp only [processCommand, processModifyOrder, hold] at h
              obtain rfl := Option.some.inj h
              exact (publishRejection_extends .eurusd .buy _).imp fun _ h => h.1
          | some old =>
              simp only [processCommand, processModifyOrder, hold, Option.bind_eq_bind,
                Option.bind_eq_some_iff] at h
              obtain ⟨⟨cancelled, s₁⟩, hcancel, manager, hmanager, order, horder, _⟩ := h
              simp [matchCall, hold, hcancel, hmanager, horder] at hcall

end Handlers

end Partition

end BetaTrader
