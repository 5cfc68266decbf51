import BetaTrader.Common.Order

/-!
# Database tasks and the orders table

The repositories turn each call into a task for the database worker, which
executes the tasks in the order in which they were queued.  A task of the
order repository changes the table `orders`, whose primary key is
`core_order_id`; a statement that fails is logged and leaves the table alone.
-/

namespace BetaTrader

/-- A queued call of a repository. -/
inductive DatabaseTask (P : Type) where
  | saveOrder (order : Order P)
  | updateOrder (order : Order P)
  | removeOrder (orderId : OrderID)
  | addTrade (trade : Trade P)

/-- A row of `orders`.  The 64-bit columns hold the bits of the unsigned values;
the text columns hold the names of the enumerators, which determine them. -/
structure OrderRow (P : Type) where
  coreOrderId : Int64
  clientOrderId : ClientOrderID
  clientId : ClientID
  senderCompId : String
  symbol : Instrument
  side : OrderSide
  type : OrderType
  timeInForce : TimeInForce
  price : P
  originalQuantity : Int64
  remainingQuantity : Int64
  status : OrderStatus
  timestamp : Timestamp
  deriving DecidableEq

abbrev OrderTable (P : Type) := List (OrderRow P)

namespace OrderRow

variable {P : Type}

/-- The values `OrderRepository::saveOrder` binds. -/
def ofOrder (order : Order P) : OrderRow P where
  coreOrderId := order.coreOrderId.toInt64
  clientOrderId := order.clientOrderId
  clientId := order.clientId
  senderCompId := order.senderCompID
  symbol := order.symbol
  side := order.side
  type := order.orderType
  timeInForce := order.timeInForce
  price := order.price
  originalQuantity := order.originalQuantity.toInt64
  remainingQuantity := order.remainingQuantity.toInt64
  status := order.status
  timestamp := order.timestamp

end OrderRow

namespace OrderTable

variable {P : Type}

def hasKey (table : OrderTable P) (key : Int64) : Bool :=
  table.any fun row => row.coreOrderId = key

/-- `INSERT`; a second row with the same primary key is refused. -/
def insert (table : OrderTable P) (row : OrderRow P) : OrderTable P :=
  if table.hasKey row.coreOrderId then table else table ++ [row]

/-- `UPDATE orders SET remaining_quantity = ?, status = ? WHERE core_order_id = ?`. -/
def update (table : OrderTable P) (remainingQuantity : Int64) (status : OrderStatus)
    (key : Int64) : OrderTable P :=
  table.map fun row =>
    if row.coreOrderId = key then
      { row with remainingQuantity := remainingQuantity, status := status }
    else row

/-- `DELETE FROM orders WHERE core_order_id = ?`. -/
def delete (table : OrderTable P) (key : Int64) : OrderTable P :=
  table.filter fun row => row.coreOrderId ≠ key

/-- Execute one task; trades go to a table of their own. -/
def execute (table : OrderTable P) : DatabaseTask P → OrderTable P
  | .saveOrder order => table.insert (.ofOrder order)
  | .updateOrder order =>
      table.update order.remainingQuantity.toInt64 order.status order.coreOrderId.toInt64
  | .removeOrder orderId => table.delete orderId.toInt64
  | .addTrade _ => table

/-- Execute queued tasks in order. -/
def executeAll (table : OrderTable P) (tasks : List (DatabaseTask P)) : OrderTable P :=
  tasks.foldl execute table

@[simp] theorem executeAll_nil (table : OrderTable P) : table.executeAll [] = table := rfl

@[simp] theorem executeAll_cons (table : OrderTable P) (task : DatabaseTask P)
    (tasks : List (DatabaseTask P)) :
    table.executeAll (task :: tasks) = (table.execute task).executeAll tasks := rfl

theorem executeAll_append (table : OrderTable P) (tasks tasks' : List (DatabaseTask P)) :
    table.executeAll (tasks ++ tasks') = (table.executeAll tasks).executeAll tasks' :=
  List.foldl_append

end OrderTable

end BetaTrader
