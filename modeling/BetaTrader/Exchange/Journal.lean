import BetaTrader.Exchange.CommandSpec
import BetaTrader.Lib.Lists

/-!
# Reading the journal

What a run has done towards its surroundings is read off the journal with a
projection of its events.  A command appends its events in four parts: the
admission of an order, the match, the booking loop and what closes it.
-/

namespace BetaTrader

namespace Partition

variable {P : Type} {β : Type} {s : Partition P} {order : Order P} {cmd : Command P}
  {clock : Clock} {f : Event P → List β}

/-- The projection sees neither the admission of an order nor changes of the
book and the orders table. -/
structure IgnoresAdmission (f : Event P → List β) : Prop where
  refreshed : ∀ refresh, f (.refreshed refresh) = []
  new : ∀ order, f (.published (.execution order "NEW")) = []
  replaced : ∀ order, f (.published (.execution order "REPLACED")) = []
  saveOrder : ∀ order, f (.enqueued (.saveOrder order)) = []
  removeOrder : ∀ id, f (.enqueued (.removeOrder id)) = []

theorem flatMap_cancelEvents (hf : ∀ refresh, f (.refreshed refresh) = []) (clock : Clock)
    (id : OrderID) : (s.cancelEvents clock id).flatMap f = [] := by
  rw [cancelEvents]
  split_ifs
  · cases s.orderManager.orderMap id <;> simp [hf]
  · rfl

theorem IgnoresAdmission.admissionEvents (hf : IgnoresAdmission f) (clock : Clock) :
    (s.admissionEvents clock order cmd).flatMap f = [] := by
  cases cmd <;> simp only [Partition.admissionEvents, List.flatMap_append, List.flatMap_cons,
    List.flatMap_nil, flatMap_cancelEvents hf.refreshed, hf.new, hf.replaced, hf.saveOrder,
    hf.removeOrder, List.append_nil]

theorem cancelled_journal {id : OrderID} {publication : Publication P} :
    (((s.cancelled clock id).publish publication).retire id).journal =
      s.journal ++ (s.cancelEvents clock id ++
        [.published publication, .enqueued (.removeOrder id)]) := by
  simp [retire, publish, emit, cancelled]

/-- A cancel shows its report only. -/
theorem IgnoresAdmission.cancelled (hf : IgnoresAdmission f) (id : OrderID) (action : String) :
    (((s.cancelled clock id).publish (.execution order action)).retire id).journal.flatMap f =
      s.journal.flatMap f ++ f (.published (.execution order action)) := by
  simp only [cancelled_journal, List.flatMap_append, flatMap_cancelEvents hf.refreshed,
    List.flatMap_cons, List.flatMap_nil, hf.removeOrder, List.append_nil, List.nil_append]

theorem flatMap_bookingEvents (f : Event P → List β) (post : Trade P → List (Event P))
    (served : Order P) (fs : List (Order P × ℕ)) (trades : List (Trade P)) :
    (bookingEvents post served fs trades).flatMap f =
      (((bookedFills served fs).zip trades).flatMap fun p =>
        (post p.2).flatMap f ++ (fillEvents served p.1 p.2).flatMap f) ++
      (trades.drop (bookedFills served fs).length).flatMap fun trade => (post trade).flatMap f := by
  simp [bookingEvents, List.flatMap_assoc]

/-- A projection that no event of the loop body and of the call before it shows. -/
theorem flatMap_bookingEvents_eq_nil {post : Trade P → List (Event P)} {served : Order P}
    {fs : List (Order P × ℕ)} (trades : List (Trade P))
    (hpost : ∀ trade, (post trade).flatMap f = [])
    (hfill : ∀ g trade, (fillEvents served g trade).flatMap f = []) :
    (bookingEvents post served fs trades).flatMap f = [] := by
  rw [flatMap_bookingEvents]
  simp only [hpost, hfill, List.append_nil, List.flatMap_eq_nil_iff, List.append_eq_nil_iff,
    implies_true, and_self]

section Executed

variable [PriceArith P]

theorem executed_journal : (s.executed clock order cmd).journal =
    s.journal ++ (s.admissionEvents clock order cmd ++
      .matched ((s.prepared clock order cmd).trades clock order) ::
        (bookingEvents (postEvents cmd) ((s.prepared clock order cmd).served order)
          ((s.prepared clock order cmd).fills order)
          ((s.prepared clock order cmd).trades clock order) ++
          (s.prepared clock order cmd).closingEvents order)) := by
  rw [executed, afterAll_journal, prepared_journal, List.append_assoc]

theorem IgnoresAdmission.closingEvents (hf : IgnoresAdmission f) :
    (s.closingEvents order).flatMap f = [] := by
  rw [Partition.closingEvents]
  split_ifs <;> simp [hf.refreshed, hf.removeOrder]

/-- An executed order shows its match and its bookings. -/
theorem IgnoresAdmission.executed (hf : IgnoresAdmission f) :
    (s.executed clock order cmd).journal.flatMap f =
      s.journal.flatMap f ++ (f (.matched ((s.prepared clock order cmd).trades clock order)) ++
        (bookingEvents (postEvents cmd) ((s.prepared clock order cmd).served order)
          ((s.prepared clock order cmd).fills order)
          ((s.prepared clock order cmd).trades clock order)).flatMap f) := by
  simp only [executed_journal, List.flatMap_append, List.flatMap_cons, hf.admissionEvents,
    hf.closingEvents, List.append_nil, List.nil_append]

end Executed

end Partition

end BetaTrader
