import BetaTrader.Exchange.OrderBook

/-!
# The risk manager

`RiskManager::preCheck` with the self-match test it ends with.
-/

namespace BetaTrader

namespace RiskManager

variable {P : Type} [PriceArith P]

/-- The loop over one level: is there an order of the same `SenderCompID`? -/
def levelHasSender (manager : OrderManager P) (senderCompID : String) :
    PriceLevel → Option Bool
  | [] => some false
  | ptr :: priceLevel => do
      let restingOrder ← manager.deref ptr
      if restingOrder.senderCompID = senderCompID then return true
      else levelHasSender manager senderCompID priceLevel

/-- Does the limit order reach a level at `price`? -/
def crosses (order : Order P) (price : P) : Prop :=
  (order.side = .buy ∧ price ≤ order.price) ∨ (order.side = .sell ∧ order.price ≤ price)

instance (order : Order P) (price : P) : Decidable (crosses order price) :=
  inferInstanceAs (Decidable (_ ∨ _))

/-- The walk stops at the first level the limit order does not reach. -/
def checkForSelfMatch (manager : OrderManager P) (order : Order P) :
    PriceMap P → Option Bool
  | [] => some false
  | (price, priceLevel) :: oppositeMap => do
      if order.orderType = .limit ∧ ¬crosses order price then return false
      else
        let found ← levelHasSender manager order.senderCompID priceLevel
        if found then return true else checkForSelfMatch manager order oppositeMap

/-- The price of the best opposite level, `0` when there is none. -/
def topOfBookPrice (order : Order P) (orderBook : OrderBook P) : P :=
  match orderBook.sideMap order.side.opposite with
  | [] => 0
  | (price, _) :: _ => price

def hasInvalidQuantityOrPrice (order : Order P) : Prop :=
  order.originalQuantity ≤ 0 ∨ (order.orderType = .limit ∧ order.price ≤ 0)

instance (order : Order P) : Decidable (hasInvalidQuantityOrPrice order) :=
  inferInstanceAs (Decidable (_ ∨ _))

/-- The fat-finger test, for limit orders against a positive top of the book. -/
def deviatesTooMuch (order : Order P) (orderBook : OrderBook P) : Prop :=
  order.orderType = .limit ∧ 0 < topOfBookPrice order orderBook ∧
    PriceArith.maxPriceDeviation <
      PriceArith.abs (order.price - topOfBookPrice order orderBook) /
        topOfBookPrice order orderBook

instance (order : Order P) (orderBook : OrderBook P) :
    Decidable (deviatesTooMuch order orderBook) :=
  inferInstanceAs (Decidable (_ ∧ _ ∧ _))

def preCheck (manager : OrderManager P) (order : Order P) (orderBook : OrderBook P) :
    Option Bool :=
  if hasInvalidQuantityOrPrice order then some false
  else if deviatesTooMuch order orderBook then some false
  else (checkForSelfMatch manager order (orderBook.sideMap order.side.opposite)).map (!·)

/-- Only orders with a quantity pass. -/
theorem originalQuantity_pos_of_preCheck {manager : OrderManager P} {order : Order P}
    {orderBook : OrderBook P} (h : preCheck manager order orderBook = some true) :
    0 < order.originalQuantity := by
  have hvalid : ¬hasInvalidQuantityOrPrice order := by
    intro hinvalid
    simp [preCheck, hinvalid] at h
  rw [Quantity.pos_iff]
  have hq : ¬order.originalQuantity ≤ 0 := fun hle => hvalid (Or.inl hle)
  rw [UInt64.le_iff_toNat_le, UInt64.toNat_zero] at hq
  omega

omit [PriceArith P] in
/-- The check is defined as long as it only meets objects that are there. -/
theorem levelHasSender_isSome {manager : OrderManager P} {senderCompID : String}
    {priceLevel : PriceLevel}
    (h : ∀ ptr ∈ priceLevel, ∃ order, manager.orderMap ptr = some order) :
    ∃ found, levelHasSender manager senderCompID priceLevel = some found := by
  induction priceLevel with
  | nil => exact ⟨false, rfl⟩
  | cons ptr priceLevel ih =>
      obtain ⟨order, horder⟩ := h ptr (by simp)
      obtain ⟨found, hfound⟩ := ih fun p hp => h p (List.mem_cons_of_mem ptr hp)
      by_cases hsender : order.senderCompID = senderCompID
      · exact ⟨true, by simp [levelHasSender, OrderManager.deref, horder, hsender]⟩
      · exact ⟨found, by simp [levelHasSender, OrderManager.deref, horder, hsender, hfound]⟩

theorem checkForSelfMatch_isSome {manager : OrderManager P} {order : Order P}
    {oppositeMap : PriceMap P}
    (h : ∀ ptr ∈ Levels.queue oppositeMap, ∃ order, manager.orderMap ptr = some order) :
    ∃ found, checkForSelfMatch manager order oppositeMap = some found := by
  induction oppositeMap with
  | nil => exact ⟨false, rfl⟩
  | cons l oppositeMap ih =>
      obtain ⟨found, hfound⟩ : ∃ found,
          levelHasSender manager order.senderCompID l.2 = some found :=
        levelHasSender_isSome fun ptr hptr => h ptr (by simp [hptr])
      obtain ⟨rest, hrest⟩ := ih fun ptr hptr => h ptr (by simp [hptr])
      simp only [checkForSelfMatch]
      split_ifs
      · exact ⟨false, rfl⟩
      · cases found with
        | true => exact ⟨true, by simp [hfound]⟩
        | false => exact ⟨rest, by simp [hfound, hrest]⟩

theorem preCheck_isSome {manager : OrderManager P} {order : Order P} {orderBook : OrderBook P}
    (h : ∀ ptr ∈ Levels.queue (orderBook.sideMap order.side.opposite),
      ∃ order, manager.orderMap ptr = some order) :
    ∃ passed, preCheck manager order orderBook = some passed := by
  obtain ⟨found, hfound⟩ : ∃ found, checkForSelfMatch manager order
      (orderBook.sideMap order.side.opposite) = some found := checkForSelfMatch_isSome h
  simp only [preCheck, hfound]
  split_ifs <;> simp

end RiskManager

end BetaTrader
