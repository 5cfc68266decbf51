import BetaTrader.Exchange.FixServer
import BetaTrader.Exchange.OrderTable

/-!
# The exchange

`TradingCore` with its partitions and queues, the database worker and the FIX
server around it.  The threads are interleaved: the server handles one event, a
worker one command, the publisher's callback one report, and the database worker
one task at a time.  A restart loses what is only in memory.
-/

namespace BetaTrader

/-! ## Reading the orders table -/

/-- What is left of a text that is read as a C string. -/
def cString (s : String) : String := String.ofList (s.toList.takeWhile (· ≠ '\x00'))

/-- A `double` after it has been in a column, where NaN becomes NULL. -/
def storedPrice : Double → Double
  | .nan => .finite 0
  | price => price

/-- The order that `loadOrdersForInstrument` makes from a row. -/
def OrderRow.toOrder (row : OrderRow Double) : Order Double :=
  let order := Order.create (cString row.clientOrderId) row.coreOrderId.toUInt64 row.symbol
    (cString row.clientId) (cString row.senderCompId) row.side row.type row.timeInForce
    row.originalQuantity.toUInt64 (storedPrice row.price) row.timestamp
  (order.setRemainingQuantity row.remainingQuantity.toUInt64).setStatus row.status

namespace OrderTable

def loadOrdersForInstrument (table : OrderTable Double) (symbol : Instrument) :
    List (Order Double) :=
  (table.filter fun row => row.symbol = symbol ∧
    (row.status = .new ∨ row.status = .partiallyFilled)).map OrderRow.toOrder

/-- `SELECT MAX(core_order_id) FROM orders`. -/
def maxCoreOrderId {P : Type} : OrderTable P → Option Int64
  | [] => none
  | row :: rows =>
      match maxCoreOrderId rows with
      | none => some row.coreOrderId
      | some key => some (if key < row.coreOrderId then row.coreOrderId else key)

/-- `OrderIDGenerator::loadInitialState`. -/
def loadInitialState {P : Type} (table : OrderTable P) : OrderID :=
  (table.maxCoreOrderId.getD 0).toUInt64

end OrderTable

namespace Partition

variable {P : Type}

/-- `Partition::init` adds the loaded orders to the manager. -/
def load (s : Partition P) (orders : List (Order P)) : Partition P :=
  s.withManager (orders.foldl (fun manager order => (manager.addOrder order).2) s.orderManager)

/-- `Partition::start` inserts the orders into the book as it meets them in the
`unordered_map`. -/
def startWith [PriceArith P] (s : Partition P) (iteration : List OrderID) : Partition P :=
  iteration.foldl (fun s id => (s.insertInBook id).getD s) s

end Partition

/-! ## The state -/

/-- The connection that a message came in on, as it was then. -/
structure Source where
  sessionId : ConnectionID
  connection : Connection

def Submission.source (submission : Submission) : Source :=
  ⟨submission.sessionId, submission.connection⟩

/-- How an order has been entered over FIX. -/
structure Origin where
  source : Source
  senderCompID : String

/-- A command in a queue.  Only the commands of sessions have a source; the
simulator submits its own. -/
structure QueuedCommand where
  command : Command Double
  source : Option Source

/-- A report for the callback, with the connection whose number it carries. -/
structure Outgoing where
  report : ExecutionReport Double
  source : Option Source

/-- What became of a report: the `SenderCompID` its order was entered with, the
connection it was sent on, and the connections there were. -/
structure Delivery where
  owner : Option String
  sentOn : Option Connection
  sessions : ConnectionID → Option Connection

structure Exchange where
  server : FixServer
  /-- `mPartitions`. -/
  partitions : Instrument → Partition Double
  /-- `mCommandQueue` of each partition. -/
  queues : Instrument → List QueuedCommand
  /-- What the command that a worker is busy with has yet to report. -/
  outbox : Instrument → List Outgoing
  /-- `TradeIDGenerator::mCurrentId`, which the partitions share. -/
  tradeId : TradeID
  /-- `OrderIDGenerator::mCurrentId`. -/
  orderId : OrderID
  /-- `DatabaseWorker::mTasks`. -/
  tasks : List (DatabaseTask Double)
  orders : OrderTable Double
  /-- Where the latest order with an id came from. -/
  origins : OrderID → Option Origin
  deliveries : List Delivery

inductive ExchangeEvent where
  | server (event : ServerEvent)
  /-- The simulator in the process submits an order. -/
  | simulate (cmd : NewOrder Double)
  /-- The worker of a partition processes a command. -/
  | work (symbol : Instrument) (clock : Clock)
  /-- The worker of a partition calls back with a report. -/
  | deliver (symbol : Instrument)
  /-- The database worker executes a task. -/
  | database
  /-- The process ends and is started again. -/
  | restart (seqRepo : Option SequenceRepository) (tradeId : TradeID)
      (iteration : Instrument → List OrderID)

namespace FixServer

/-- Where `onExecutionReport` writes the report: on no connection, if there is
none with the number, or if the socket has been closed. -/
def sentOn (server : FixServer) (report : ExecutionReport Double) : Option Connection :=
  if report.targetCompId = 0 then none
  else (server.sessions report.targetCompId).filter fun connection => connection.isOpen

def onExecutionReport (server : FixServer) (report : ExecutionReport Double) : FixServer :=
  if report.targetCompId = 0 then server else server.sendTo report.targetCompId

end FixServer

/-- The reports that an event makes.  A rejection goes to the source of the
command, any other report to the source of its order. -/
def Event.outgoing (origins : OrderID → Option Origin) (source : Option Source) :
    Event Double → List Outgoing
  | .published (.rejection orderId clientId symbol side reason now) =>
      [⟨ExecutionPublisher.publishRejection orderId clientId symbol side reason now, source⟩]
  | .published publication => publication.reports.map fun report =>
      ⟨report, (origins report.exchangeOrderId).map Origin.source⟩
  | _ => []

namespace Exchange

/-- An exchange that has never run before. -/
def start (seqRepo : Option SequenceRepository) : Exchange where
  server := .start seqRepo
  partitions := fun symbol => .init symbol 0
  queues := fun _ => []
  outbox := fun _ => []
  tradeId := 0
  orderId := 0
  tasks := []
  orders := []
  origins := fun _ => none
  deliveries := []

/-! ## Submitting commands -/

def findPartitionForOrder (σ : Exchange) (orderId : OrderID) : Option Instrument :=
  Instrument.all.find? fun symbol =>
    (σ.partitions symbol).orderManager.containsOrderById orderId

/-- The capacity of `mCommandQueue`. -/
def commandQueueCapacity : ℕ := 262144

/-- `Partition::enqueue`; a queue that is full drops the command. -/
def enqueue (σ : Exchange) (symbol : Instrument) (queued : QueuedCommand) : Exchange :=
  if (σ.queues symbol).length < commandQueueCapacity then
    { σ with queues := Function.update σ.queues symbol (σ.queues symbol ++ [queued]) }
  else σ

def submitCommand (σ : Exchange) (queued : QueuedCommand) : Exchange :=
  match queued.command with
  | .newOrder cmd => σ.enqueue cmd.order.symbol queued
  | .cancelOrder cmd =>
      match σ.findPartitionForOrder cmd.orderId with
      | none => σ
      | some symbol => σ.enqueue symbol queued
  | .modifyOrder cmd =>
      match σ.findPartitionForOrder cmd.orderId with
      | none => σ
      | some symbol => σ.enqueue symbol queued

/-- A new order has been given the id that `nextId` returned. -/
def enter (σ : Exchange) (queued : QueuedCommand) : Exchange :=
  match queued.command with
  | .newOrder cmd =>
      { σ with
        orderId := cmd.order.coreOrderId
        origins := Function.update σ.origins cmd.order.coreOrderId
          (queued.source.map fun source => ⟨source, cmd.order.senderCompID⟩) }
  | _ => σ

def submit (σ : Exchange) (queued : QueuedCommand) : Exchange :=
  (σ.enter queued).submitCommand queued

/-- An event of the server, with the commands that its sessions submit. -/
def serve (σ : Exchange) (event : ServerEvent) : Exchange :=
  let server := σ.server.step event
  (server.submissions.drop σ.server.submissions.length).foldl
    (fun σ submission => σ.submit ⟨submission.command, some submission.source⟩)
    { σ with server := server }

/-! ## The threads -/

/-- The partition of a symbol; its trade ids come from the common counter. -/
def partitionOf (σ : Exchange) (symbol : Instrument) : Partition Double :=
  { σ.partitions symbol with currentId := σ.tradeId }

/-- A worker has processed a command: its reports go to the callback, and its
tasks to the database worker. -/
def finish (σ : Exchange) (symbol : Instrument) (queued : QueuedCommand)
    (rest : List QueuedCommand) (s : Partition Double) : Exchange :=
  let events := s.journal.drop (σ.partitions symbol).journal.length
  { σ with
    partitions := Function.update σ.partitions symbol s
    queues := Function.update σ.queues symbol rest
    outbox := Function.update σ.outbox symbol
      (events.flatMap (Event.outgoing σ.origins queued.source))
    tradeId := s.currentId
    tasks := σ.tasks ++ events.flatMap Event.tasks }

/-- The worker takes the next command once all reports of the last one are out.
A command that reads an object that is gone ends the process. -/
def work (σ : Exchange) (symbol : Instrument) (clock : Clock) : Exchange :=
  match σ.outbox symbol, σ.queues symbol with
  | [], queued :: rest =>
      match (σ.partitionOf symbol).processCommand clock queued.command with
      | none => { σ with server := { σ.server with running := false } }
      | some s => σ.finish symbol queued rest s
  | _, _ => σ

/-- What becomes of a report that is delivered now. -/
def delivery (σ : Exchange) (outgoing : Outgoing) : Delivery where
  owner := (σ.origins outgoing.report.exchangeOrderId).map Origin.senderCompID
  sentOn := σ.server.sentOn outgoing.report
  sessions := σ.server.sessions

def deliver (σ : Exchange) (symbol : Instrument) : Exchange :=
  match σ.outbox symbol with
  | [] => σ
  | outgoing :: rest =>
      { σ with
        server := σ.server.onExecutionReport outgoing.report
        outbox := Function.update σ.outbox symbol rest
        deliveries := σ.deliveries ++ [σ.delivery outgoing] }

def executeTask (σ : Exchange) : Exchange :=
  match σ.tasks with
  | [] => σ
  | task :: tasks => { σ with orders := σ.orders.execute task, tasks := tasks }

/-- Queues and connections are gone, the open orders come back from the table,
and connections are numbered from `1` again. -/
def restart (σ : Exchange) (seqRepo : Option SequenceRepository) (tradeId : TradeID)
    (iteration : Instrument → List OrderID) : Exchange where
  server := { FixServer.start seqRepo with accepted := σ.server.accepted }
  partitions := fun symbol => ((Partition.init symbol tradeId).load
    (σ.orders.loadOrdersForInstrument symbol)).startWith (iteration symbol)
  queues := fun _ => []
  outbox := fun _ => []
  tradeId := tradeId
  orderId := σ.orders.loadInitialState
  tasks := []
  orders := σ.orders
  origins := σ.origins
  deliveries := σ.deliveries

def step (σ : Exchange) : ExchangeEvent → Exchange
  | .restart seqRepo tradeId iteration => σ.restart seqRepo tradeId iteration
  | .server event => if σ.server.running then σ.serve event else σ
  | .simulate cmd => if σ.server.running then σ.submit ⟨.newOrder cmd, none⟩ else σ
  | .work symbol clock => if σ.server.running then σ.work symbol clock else σ
  | .deliver symbol => if σ.server.running then σ.deliver symbol else σ
  | .database => if σ.server.running then σ.executeTask else σ

def run (σ : Exchange) (events : List ExchangeEvent) : Exchange := events.foldl step σ

/-! ## What the events read -/

/-- An answer of `getOrderByClientOrderId`: an order with this client id of the
first partition that has one.  Which one of them `find_if` meets first is up to
the `unordered_map`. -/
def Finds (σ : Exchange) (clientOrderId : ClientOrderID) : Option OrderID → Prop
  | none => ∀ symbol ptr order, (σ.partitions symbol).orderManager.orderMap ptr = some order →
      order.clientOrderId ≠ clientOrderId
  | some id => ∃ before symbol after, Instrument.all = before ++ symbol :: after ∧
      (∀ other ∈ before, ∀ ptr order,
        (σ.partitions other).orderManager.orderMap ptr = some order →
          order.clientOrderId ≠ clientOrderId) ∧
      ∃ ptr order, (σ.partitions symbol).orderManager.orderMap ptr = some order ∧
        order.clientOrderId = clientOrderId ∧ order.coreOrderId = id

/-- The event states what its handler reads in this state. -/
def Reads (σ : Exchange) : ExchangeEvent → Prop
  | .server (.frame _ ctx _) => ctx.nextId = σ.orderId + 1 ∧
      ∀ clientOrderId, σ.Finds clientOrderId (ctx.orderIdOf clientOrderId)
  | .simulate cmd => cmd.order.coreOrderId = σ.orderId + 1 ∧ cmd.order.clientId = "SIMULATOR"
  | .restart _ _ iteration => ∀ symbol, (iteration symbol).Perm
      ((σ.orders.loadOrdersForInstrument symbol).map Order.coreOrderId)
  | _ => True

end Exchange

end BetaTrader
