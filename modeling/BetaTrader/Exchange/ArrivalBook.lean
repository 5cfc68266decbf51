import BetaTrader.Common.Order
import BetaTrader.Lib.Allocation
import BetaTrader.Lib.StableOrder

/-!
# A book without levels

Price-time priority said without price levels, pointers and machine words: the open
orders of an instrument stand in one list, in the order in which they came in.  An
incoming order is served by those of the other side that it accepts, best price first
and in the order of arrival inside a price, and what is left of it goes to the end.
-/

namespace BetaTrader

variable {P : Type}

/-- An open order. -/
structure Resting (P : Type) where
  id : OrderID
  side : OrderSide
  price : P
  quantity : ℕ
  deriving DecidableEq

/-- A trade, without its id and its time. -/
structure Deal (P : Type) where
  buyOrderId : OrderID
  sellOrderId : OrderID
  price : P
  quantity : ℕ
  deriving DecidableEq

inductive Entry (P : Type) where
  /-- `market` orders accept every price and do not wait. -/
  | enter (incoming : Resting P) (market : Bool)
  | withdraw (id : OrderID)

structure ArrivalBook (P : Type) where
  /-- Oldest first. -/
  orders : List (Resting P)
  deals : List (Deal P)
  deriving DecidableEq

namespace Resting

/-- What is left after `amount` has been taken, unless nothing is. -/
def less (r : Resting P) (amount : ℕ) : Option (Resting P) :=
  if amount < r.quantity then some { r with quantity := r.quantity - amount } else none

def accepts [LE P] (incoming : Resting P) (market : Bool) (price : P) : Prop :=
  market = true ∨ incoming.side = .buy ∧ price ≤ incoming.price ∨
    incoming.side = .sell ∧ incoming.price ≤ price

instance [LE P] [DecidableLE P] (incoming : Resting P) (market : Bool) (price : P) :
    Decidable (incoming.accepts market price) := inferInstanceAs (Decidable (_ ∨ _))

/-- The deal of an incoming order with a resting one, at the price of the latter. -/
def deal (incoming : Resting P) (f : Resting P × ℕ) : Deal P where
  buyOrderId := if incoming.side = .buy then incoming.id else f.1.id
  sellOrderId := if incoming.side = .buy then f.1.id else incoming.id
  price := f.1.price
  quantity := f.2

theorem less_eq_some {r r' : Resting P} {amount : ℕ} :
    r.less amount = some r' ↔ amount < r.quantity ∧
      r' = { r with quantity := r.quantity - amount } := by
  simp [less, eq_comm]

theorem less_keeps {q q' : Resting P} {amount : ℕ} (h : q.less amount = some q') :
    q'.id = q.id ∧ q'.side = q.side ∧ q'.price = q.price ∧ 0 < q'.quantity := by
  obtain ⟨hlt, rfl⟩ := less_eq_some.mp h
  exact ⟨rfl, rfl, rfl, Nat.sub_pos_of_lt hlt⟩

theorem less_zero {r : Resting P} (h : 0 < r.quantity) : r.less 0 = some r := by
  rw [less, if_pos h]
  rfl

end Resting

/-- How much of the fills goes to the order `id`. -/
def given (fs : List (Resting P × ℕ)) (id : OrderID) : ℕ :=
  ((fs.filter fun f => f.1.id = id).map Prod.snd).sum

theorem given_eq_zero {fs : List (Resting P × ℕ)} {id : OrderID}
    (h : ∀ f ∈ fs, f.1.id ≠ id) : given fs id = 0 := by
  rw [given, List.filter_eq_nil_iff.mpr fun f hf => by simpa using h f hf]
  rfl

theorem given_of_mem {fs : List (Resting P × ℕ)} {f : Resting P × ℕ}
    (hnodup : (fs.map fun g => g.1.id).Nodup) (hf : f ∈ fs) : given fs f.1.id = f.2 := by
  induction fs with
  | nil => simp at hf
  | cons g fs ih =>
      obtain ⟨hg, hnodup⟩ := List.nodup_cons.mp hnodup
      rcases List.mem_cons.mp hf with rfl | hf
      · have hzero : given fs f.1.id = 0 :=
          given_eq_zero fun g' hg' heq => hg (List.mem_map.mpr ⟨g', hg', heq⟩)
        rw [given] at hzero ⊢
        simp [hzero]
      · have hne : g.1.id ≠ f.1.id := fun heq => hg (List.mem_map.mpr ⟨f, hf, heq.symm⟩)
        have hrest := ih hnodup hf
        rw [given] at hrest ⊢
        rw [List.filter_cons_of_neg (by simpa using hne), hrest]

namespace ArrivalBook

section Machine

variable [LinearOrder P]

/-- The orders that serve an incoming order, in turn. -/
def serving (incoming : Resting P) (market : Bool) (orders : List (Resting P)) :
    List (Resting P) :=
  Levels.sortByKey incoming.side.opposite.before Resting.price
    (orders.filter fun r => r.side = incoming.side.opposite ∧ incoming.accepts market r.price)

def fills (incoming : Resting P) (market : Bool) (orders : List (Resting P)) :
    List (Resting P × ℕ) :=
  Allocation.fills Resting.quantity incoming.quantity (serving incoming market orders)

def enter (book : ArrivalBook P) (incoming : Resting P) (market : Bool) : ArrivalBook P where
  orders := book.orders.filterMap
      (fun r => r.less (given (fills incoming market book.orders) r.id)) ++
    if market then []
    else (incoming.less ((fills incoming market book.orders).map Prod.snd).sum).toList
  deals := book.deals ++ (fills incoming market book.orders).map incoming.deal

def withdraw (book : ArrivalBook P) (id : OrderID) : ArrivalBook P :=
  { book with orders := book.orders.filter fun r => r.id ≠ id }

def step (book : ArrivalBook P) : Entry P → ArrivalBook P
  | .enter incoming market => book.enter incoming market
  | .withdraw id => book.withdraw id

def empty : ArrivalBook P := ⟨[], []⟩

end Machine

/-! ## What is kept -/

structure Sound (orders : List (Resting P)) : Prop where
  nodup : (orders.map Resting.id).Nodup
  pos : ∀ r ∈ orders, 0 < r.quantity

theorem sound_nil : Sound ([] : List (Resting P)) := ⟨List.nodup_nil, by simp⟩

theorem Sound.sublist {orders orders' : List (Resting P)} (h : Sound orders)
    (hsub : orders'.Sublist orders) : Sound orders' :=
  ⟨h.nodup.sublist (hsub.map _), fun r hr => h.pos r (hsub.subset hr)⟩

theorem Sound.eq_of_id {orders : List (Resting P)} (h : Sound orders) {q r : Resting P}
    (hq : q ∈ orders) (hr : r ∈ orders) (hid : q.id = r.id) : q = r :=
  List.inj_on_of_nodup_map h.nodup hq hr hid

variable [LinearOrder P] {orders : List (Resting P)} {incoming r : Resting P} {market : Bool}
  {f : Resting P × ℕ}

theorem mem_serving : r ∈ serving incoming market orders ↔
    r ∈ orders ∧ r.side = incoming.side.opposite ∧ incoming.accepts market r.price := by
  simp [serving]

theorem Sound.serving (h : Sound orders) : Sound (serving incoming market orders) where
  nodup := by
    have hperm : (ArrivalBook.serving incoming market orders).Perm _ := Levels.perm_sortByKey _
    rw [(hperm.map _).nodup_iff]
    exact (h.sublist List.filter_sublist).nodup
  pos := fun r hr => h.pos r (mem_serving.mp hr).1

theorem Sound.fill (h : Sound orders) (hf : f ∈ fills incoming market orders) :
    f.1 ∈ orders ∧ f.1.side = incoming.side.opposite ∧ 0 < f.2 ∧ f.2 ≤ f.1.quantity := by
  obtain ⟨hmem, hside, _⟩ := mem_serving.mp (Allocation.mem_queue_of_mem_fills hf)
  exact ⟨hmem, hside, Allocation.fills_amount h.serving.pos f hf⟩

theorem Sound.nodup_fills (h : Sound orders) :
    ((fills incoming market orders).map fun f => f.1.id).Nodup := by
  have hsub : ((fills incoming market orders).map Prod.fst).Sublist
      (ArrivalBook.serving incoming market orders) :=
    (Allocation.fills_prefix_queue _ _).sublist
  have hmap := h.serving.nodup.sublist (hsub.map Resting.id)
  rwa [List.map_map] at hmap

/-- Nobody is served before an order that has come in earlier at the same price is
used up. -/
theorem Sound.given_eq_zero_behind (h : Sound orders) {q : Resting P}
    (hsub : [q, r].Sublist orders) (hside : q.side = r.side) (hprice : q.price = r.price)
    (hopen : given (fills incoming market orders) q.id < q.quantity) :
    given (fills incoming market orders) r.id = 0 := by
  refine given_eq_zero fun f hf hid => ?_
  have hr : r ∈ orders := hsub.subset (by simp)
  obtain rfl : f.1 = r := h.eq_of_id (h.fill hf).1 hr hid
  obtain ⟨_, hopposite, haccepts⟩ := mem_serving.mp (Allocation.mem_queue_of_mem_fills hf)
  have hqueue : [q, f.1].Sublist (ArrivalBook.serving incoming market orders) := by
    refine List.sublist_insertionSort ?_ ?_
    · simp [hprice, irrefl_of incoming.side.opposite.before f.1.price]
    · have hfilter := hsub.filter fun r =>
        r.side = incoming.side.opposite ∧ incoming.accepts market r.price
      simpa [hside, hprice, hopposite, haccepts] using hfilter
  have hfull : (q, q.quantity) ∈ fills incoming market orders :=
    Allocation.mem_fills_of_sublist (List.Nodup.of_map _ h.serving.nodup) hqueue
      (List.mem_map_of_mem hf)
  have hgiven : given (fills incoming market orders) q.id = q.quantity :=
    given_of_mem h.nodup_fills hfull
  omega

/-- Does an entry bring in an order under this id? -/
def Brings (id : OrderID) : Entry P → Prop
  | .enter incoming _ => incoming.id = id
  | .withdraw _ => False

omit [LinearOrder P] in
theorem ids_less {q : Resting P → ℕ} :
    ((orders.filterMap fun r => r.less (q r)).map Resting.id).Sublist (orders.map Resting.id) := by
  induction orders with
  | nil => exact List.Sublist.refl []
  | cons r orders ih =>
      cases hless : r.less (q r) with
      | none =>
          simp only [List.filterMap_cons, hless]
          exact ih.cons _
      | some r' =>
          simp only [List.filterMap_cons, hless, List.map_cons, (Resting.less_keeps hless).1]
          exact ih.cons_cons _

omit [LinearOrder P] in
/-- Which orders of a side and price are left does not depend on how much of them is. -/
theorem ids_filterMap_less (q : Resting P → ℕ) {p : Resting P → Bool}
    (hp : ∀ r r' : Resting P, r'.side = r.side → r'.price = r.price → p r' = p r) :
    ((orders.filterMap fun r => r.less (q r)).filter p).map Resting.id =
      ((orders.filter p).filter fun r => (r.less (q r)).isSome).map Resting.id := by
  induction orders with
  | nil => rfl
  | cons r orders ih =>
      cases hless : r.less (q r) with
      | none =>
          rw [List.filterMap_cons, hless, List.filter_cons]
          split_ifs
          · rw [List.filter_cons_of_neg (by simp [hless])]
            exact ih
          · exact ih
      | some r' =>
          obtain ⟨hid, hside, hprice, _⟩ := Resting.less_keeps hless
          rw [List.filterMap_cons, hless, List.filter_cons, List.filter_cons,
            hp r r' hside hprice]
          split_ifs
          · rw [List.filter_cons_of_pos (by simp [hless]), List.map_cons, List.map_cons, hid, ih]
          · exact ih

theorem Sound.step {book : ArrivalBook P} (h : Sound book.orders) {entry : Entry P}
    (hnew : ∀ id, Brings id entry → id ∉ book.orders.map Resting.id) :
    Sound (book.step entry).orders := by
  cases entry with
  | withdraw id => exact h.sublist List.filter_sublist
  | enter incoming market =>
      refine ⟨?_, fun r hr => ?_⟩
      · have hincoming := hnew incoming.id rfl
        simp only [ArrivalBook.step, enter]
        rw [List.map_append, List.nodup_append]
        refine ⟨h.nodup.sublist ids_less, ?_, ?_⟩
        · split_ifs
          · exact List.nodup_nil
          · cases incoming.less _ <;> simp
        · rintro id hid _ hid' rfl
          split_ifs at hid' with hmarket
          · exact List.not_mem_nil hid'
          · obtain ⟨r, hr, rfl⟩ := List.mem_map.mp hid'
            have hkeep := (Resting.less_keeps (Option.mem_toList.mp hr)).1
            exact hincoming (hkeep ▸ ids_less.subset hid)
      · rcases List.mem_append.mp hr with hr | hr
        · obtain ⟨q, _, hq⟩ := List.mem_filterMap.mp hr
          exact (Resting.less_keeps hq).2.2.2
        · split_ifs at hr with hmarket
          · exact (List.not_mem_nil hr).elim
          · exact (Resting.less_keeps (Option.mem_toList.mp hr)).2.2.2

/-! ## Nobody is overtaken -/

/-- While the order `a` is open, it stands ahead of `r`, on the same side and at the same
price. -/
def Behind (a : OrderID) (r : Resting P) (orders : List (Resting P)) : Prop :=
  a ∈ orders.map Resting.id → ∃ q, q.id = a ∧ q.side = r.side ∧ q.price = r.price ∧
    [q, r].Sublist orders

theorem Behind.step {a : OrderID} {book : ArrivalBook P} (hsound : Sound book.orders)
    (h : Behind a r book.orders) {entry : Entry P} (ha : ¬Brings a entry)
    (hr : entry ≠ .withdraw r.id) : Behind a r (book.step entry).orders := by
  intro hopen
  cases entry with
  | withdraw id =>
      have hid : r.id ≠ id := fun heq => hr (heq ▸ rfl)
      obtain ⟨q', hq', hq'id⟩ := List.mem_map.mp hopen
      obtain ⟨hq', hne⟩ := List.mem_filter.mp hq'
      obtain ⟨q, hq, hside, hprice, hsub⟩ := h (List.mem_map.mpr ⟨q', hq', hq'id⟩)
      have hqid : q.id ≠ id := by
        rw [hq, ← hq'id]
        simpa using hne
      refine ⟨q, hq, hside, hprice, ?_⟩
      have hfilter := hsub.filter fun r => r.id ≠ id
      rw [List.filter_eq_self.mpr (by simp [hqid, hid])] at hfilter
      exact hfilter
  | enter incoming market =>
      have hmem : ∃ q ∈ book.orders, ∃ q',
          q.less (given (fills incoming market book.orders) q.id) = some q' ∧ q'.id = a := by
        obtain ⟨q', hq', hid⟩ := List.mem_map.mp hopen
        rcases List.mem_append.mp hq' with hq' | hq'
        · obtain ⟨q, hq, hless⟩ := List.mem_filterMap.mp hq'
          exact ⟨q, hq, q', hless, hid⟩
        · split_ifs at hq' with hmarket
          · exact (List.not_mem_nil hq').elim
          · have hkeep := (Resting.less_keeps (Option.mem_toList.mp hq')).1
            exact (ha (hkeep.symm.trans hid)).elim
      obtain ⟨q, hq, q', hless, hid⟩ := hmem
      obtain ⟨hkeep, hkeepSide, hkeepPrice, _⟩ := Resting.less_keeps hless
      obtain ⟨p, hp, hside, hprice, hsub⟩ := h (List.mem_map.mpr ⟨q, hq, hkeep.symm.trans hid⟩)
      obtain rfl : p = q :=
        hsound.eq_of_id (hsub.subset (by simp)) hq (hp.trans (hid.symm.trans hkeep))
      have hzero := hsound.given_eq_zero_behind hsub hside hprice (Resting.less_eq_some.mp hless).1
      have hpos : 0 < r.quantity := hsound.pos r (hsub.subset (by simp))
      refine ⟨q', hid, hkeepSide.trans hside, hkeepPrice.trans hprice, ?_⟩
      have hkept := hsub.filterMap fun r =>
        r.less (given (fills incoming market book.orders) r.id)
      simp only [List.filterMap_cons, hless, hzero, Resting.less_zero hpos,
        List.filterMap_nil] at hkept
      exact hkept.trans (List.sublist_append_left _ _)

end ArrivalBook

end BetaTrader
