import BetaTrader.Common.Order
import Mathlib.Logic.Function.Basic

/-!
# The order manager

`OrderManager` owns the order objects through the `unique_ptr`s of `mOrderMap`.
The book refers to them by raw pointers.  The object created for a core id is
the only one the engine ever reaches under that id, so the id serves as its
address, and a pointer may be read as long as the manager owns the object.
-/

namespace BetaTrader

abbrev OrderPtr := OrderID

structure OrderManager (P : Type) where
  orderMap : OrderID → Option (Order P)
  /-- The last contents of the objects that have left the map.  The engine never
  reads it; it serves statements about orders that are gone. -/
  destroyed : OrderID → Option (Order P)

namespace OrderManager

variable {P : Type}

def empty : OrderManager P := ⟨fun _ => none, fun _ => none⟩

/-- Read through a pointer; `none` when the object is not there. -/
def deref (manager : OrderManager P) (ptr : OrderPtr) : Option (Order P) :=
  manager.orderMap ptr

/-- Change an object through a pointer. -/
def modify (manager : OrderManager P) (ptr : OrderPtr) (f : Order P → Order P) :
    Option (OrderManager P) :=
  (manager.deref ptr).map fun order =>
    { manager with orderMap := Function.update manager.orderMap ptr (some (f order)) }

def getOrderById (manager : OrderManager P) (id : OrderID) : Option (Order P) :=
  manager.orderMap id

def containsOrderById (manager : OrderManager P) (id : OrderID) : Bool :=
  (manager.orderMap id).isSome

/-- An order whose id is taken is refused, and its object is destroyed. -/
def addOrder (manager : OrderManager P) (order : Order P) : Bool × OrderManager P :=
  if manager.containsOrderById order.coreOrderId then (false, manager)
  else (true, { manager with
    orderMap := Function.update manager.orderMap order.coreOrderId (some order) })

def removeOrderById (manager : OrderManager P) (id : OrderID) : OrderManager P :=
  match manager.orderMap id with
  | none => manager
  | some order =>
      { orderMap := Function.update manager.orderMap id none
        destroyed := Function.update manager.destroyed id (some order) }

/-- The order's contents, or its last contents if it is gone. -/
def lastSeen (manager : OrderManager P) (id : OrderID) : Option (Order P) :=
  (manager.orderMap id).or (manager.destroyed id)

/-- The manager after writing `order` to the object at `ptr`. -/
def write (manager : OrderManager P) (ptr : OrderPtr) (order : Order P) : OrderManager P :=
  { manager with orderMap := Function.update manager.orderMap ptr (some order) }

@[simp] theorem empty_orderMap (id : OrderID) : (empty : OrderManager P).orderMap id = none := rfl

@[simp] theorem empty_destroyed (id : OrderID) :
    (empty : OrderManager P).destroyed id = none := rfl

@[simp] theorem write_destroyed (manager : OrderManager P) (ptr : OrderPtr) (order : Order P) :
    (manager.write ptr order).destroyed = manager.destroyed := rfl

@[simp] theorem write_orderMap_self (manager : OrderManager P) (ptr : OrderPtr)
    (order : Order P) : (manager.write ptr order).orderMap ptr = some order := by
  simp [write]

theorem write_orderMap_of_ne (manager : OrderManager P) {ptr id : OrderPtr} (order : Order P)
    (h : id ≠ ptr) : (manager.write ptr order).orderMap id = manager.orderMap id := by
  simp [write, h]

@[simp] theorem write_write (manager : OrderManager P) (ptr : OrderPtr) (order order' : Order P) :
    (manager.write ptr order).write ptr order' = manager.write ptr order' := by
  simp [write]

theorem write_comm (manager : OrderManager P) {ptr ptr' : OrderPtr} (h : ptr ≠ ptr')
    (order order' : Order P) :
    (manager.write ptr order).write ptr' order' = (manager.write ptr' order').write ptr order := by
  simp only [write, mk.injEq, and_true]
  exact Function.update_comm h _ _ _

theorem modify_eq {manager : OrderManager P} {ptr : OrderPtr} {order : Order P}
    (h : manager.orderMap ptr = some order) (f : Order P → Order P) :
    manager.modify ptr f = some (manager.write ptr (f order)) := by
  simp [modify, deref, h, write]

theorem addOrder_eq {manager : OrderManager P} {order : Order P}
    (h : manager.orderMap order.coreOrderId = none) :
    manager.addOrder order = (true, manager.write order.coreOrderId order) := by
  simp [addOrder, containsOrderById, h, write]

@[simp] theorem removeOrderById_orderMap_self (manager : OrderManager P) (id : OrderID) :
    (manager.removeOrderById id).orderMap id = none := by
  unfold removeOrderById
  split <;> simp_all

theorem removeOrderById_orderMap_of_ne (manager : OrderManager P) {id id' : OrderID}
    (h : id' ≠ id) : (manager.removeOrderById id).orderMap id' = manager.orderMap id' := by
  unfold removeOrderById
  split <;> simp [h]

theorem removeOrderById_orderMap (manager : OrderManager P) (id id' : OrderID) :
    (manager.removeOrderById id).orderMap id' =
      if id' = id then none else manager.orderMap id' := by
  split_ifs with h
  · rw [h, removeOrderById_orderMap_self]
  · exact removeOrderById_orderMap_of_ne manager h

theorem orderMap_of_removeOrderById {manager : OrderManager P} {id id' : OrderID}
    {order : Order P} (h : (manager.removeOrderById id).orderMap id' = some order) :
    id' ≠ id ∧ manager.orderMap id' = some order := by
  rw [removeOrderById_orderMap] at h
  split_ifs at h with hid
  exact ⟨hid, h⟩

/-- Removing an order keeps its last contents in sight. -/
@[simp] theorem removeOrderById_lastSeen (manager : OrderManager P) (id id' : OrderID) :
    (manager.removeOrderById id).lastSeen id' = manager.lastSeen id' := by
  unfold removeOrderById lastSeen
  split
  · rfl
  · by_cases h : id' = id
    · subst h
      simp_all
    · simp [h]

theorem lastSeen_of_orderMap {manager : OrderManager P} {id : OrderID} {order : Order P}
    (h : manager.orderMap id = some order) : manager.lastSeen id = some order := by
  simp [lastSeen, h]

@[simp] theorem write_lastSeen_self (manager : OrderManager P) (ptr : OrderPtr)
    (order : Order P) : (manager.write ptr order).lastSeen ptr = some order :=
  lastSeen_of_orderMap (write_orderMap_self manager ptr order)

theorem write_lastSeen_of_ne (manager : OrderManager P) {ptr id : OrderPtr} (order : Order P)
    (h : id ≠ ptr) : (manager.write ptr order).lastSeen id = manager.lastSeen id := by
  simp [lastSeen, write_orderMap_of_ne manager order h]

end OrderManager

end BetaTrader
