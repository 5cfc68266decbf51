import BetaTrader.Common.FixUtils

/-!
# Order tickets

What the order entry panel of the client collects, and the checks it makes
before it sends an order.
-/

namespace BetaTrader

structure OrderTicket where
  symbol : String
  side : Char
  price : Double
  quantity : Int32
  orderType : Char
  timeInForce : Char
  deriving DecidableEq

/-- The first error of a ticket; `none` for a valid one. -/
def validateOrderTicket (ticket : OrderTicket) : Option String :=
  if ticket.symbol = "" then some "Symbol is required."
  else if Instrument.fromString ticket.symbol.toList = none then some "Symbol is not supported."
  else if ticket.side ≠ '1' ∧ ticket.side ≠ '2' then some "Side must be BUY or SELL."
  else if ticket.quantity ≤ 0 then some "Quantity must be positive."
  else if ticket.orderType ≠ '1' ∧ ticket.orderType ≠ '2' then some "Order type is unsupported."
  else if ticket.orderType = '2' ∧ (!ticket.price.isFinite ∨ ticket.price ≤ 0) then
    some "Limit orders require a positive price."
  else if ticket.timeInForce ≠ '0' ∧ ticket.timeInForce ≠ '1' ∧ ticket.timeInForce ≠ '3' ∧
      ticket.timeInForce ≠ '4' then
    some "Time-in-force is unsupported."
  else none

/-- What the checks leave. -/
structure OrderTicket.Valid (ticket : OrderTicket) : Prop where
  symbol : ∃ symbol, Instrument.fromString ticket.symbol.toList = some symbol
  side : ticket.side = '1' ∨ ticket.side = '2'
  quantity : 0 < ticket.quantity
  orderType : ticket.orderType = '1' ∨ ticket.orderType = '2'
  price : ticket.orderType = '2' → ∃ x, ticket.price = .finite x ∧ 0 < x
  timeInForce : ticket.timeInForce ∈ ['0', '1', '3', '4']

/-- A price that passes the checks of a limit order. -/
theorem exists_of_isFinite {price : Double} (h : ¬((!price.isFinite) = true ∨ price ≤ 0)) :
    ∃ x, price = .finite x ∧ 0 < x := by
  rw [not_or] at h
  cases price with
  | finite x =>
      refine ⟨x, rfl, not_le.mp fun hle => h.2 ?_⟩
      exact decide_eq_true hle
  | posInf => simp [Double.isFinite] at h
  | negInf => simp [Double.isFinite] at h
  | nan => simp [Double.isFinite] at h

theorem OrderTicket.valid_of_validate {ticket : OrderTicket}
    (h : validateOrderTicket ticket = none) : ticket.Valid := by
  unfold validateOrderTicket at h
  split_ifs at h with hempty hsymbol hside hquantity htype hprice htif
  exact {
    symbol := Option.ne_none_iff_exists'.mp hsymbol
    side := by tauto
    quantity := by simpa using hquantity
    orderType := by tauto
    price := fun hlimit => exists_of_isFinite fun hbad => hprice ⟨hlimit, hbad⟩
    timeInForce := by
      simp only [List.mem_cons, List.not_mem_nil, or_false]
      tauto }

end BetaTrader
