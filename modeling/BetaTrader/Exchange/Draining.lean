import BetaTrader.Exchange.DatabaseWorker
import BetaTrader.Exchange.TradingCore

/-!
# Draining the queues

`stopAcceptingCommands` and `waitAllQueuesIdle` beside the submitters, the
workers of the partitions and the database worker.  The threads take one step at
a time: a submitter looks at the flag or pushes, a worker takes a command off
its queue, begins one of its batch or queues one task, and the main thread reads
the size of one queue.
-/

namespace BetaTrader

/-! ## The threads -/

/-- Where the worker of a partition is; `batch` is what it has dequeued and not
begun. -/
inductive WorkerState where
  /-- In the loop of `processNextCommand`. -/
  | dequeuing (batch : List (Command Double))
  /-- In `processBatch`, between two commands. -/
  | processing (batch : List (Command Double))
  /-- In a handler that has `tasks` yet to queue. -/
  | handling (command : Command Double) (tasks : List (DatabaseTask Double))
      (batch : List (Command Double))

namespace WorkerState

/-- The commands that have been dequeued and are not finished. -/
def unfinished : WorkerState → List (Command Double)
  | .dequeuing batch | .processing batch => batch
  | .handling command _ batch => command :: batch

def pending : WorkerState → List (DatabaseTask Double)
  | .handling _ tasks _ => tasks
  | _ => []

theorem pending_eq_nil {worker : WorkerState} (h : worker.unfinished = []) :
    worker.pending = [] := by
  cases worker with
  | dequeuing batch => rfl
  | processing batch => rfl
  | handling command tasks batch => cases h

end WorkerState

/-- A `Partition` with its queue and its worker. -/
structure Lane where
  partition : Partition Double
  /-- `mAcceptingCommands`. -/
  accepting : Bool
  /-- `mCommandQueue`. -/
  queue : List (Command Double)
  worker : WorkerState
  /-- The commands of submitters that have found the flag set and not pushed yet. -/
  checked : List (Command Double)

/-- `BATCH_SIZE`. -/
def WorkerThread.batchSize : ℕ := 64

namespace Lane

/-- A partition that has been started. -/
def start (partition : Partition Double) : Lane where
  partition := partition
  accepting := true
  queue := []
  worker := .dequeuing []
  checked := []

/-- The first statement of `enqueue`. -/
def check (lane : Lane) (command : Command Double) : Lane :=
  if lane.accepting then { lane with checked := lane.checked ++ [command] } else lane

/-- What the rest of `enqueue` puts into the queue for the submitter at `n`. -/
def pushes (lane : Lane) (n : ℕ) : List (Command Double) :=
  if lane.queue.length < Exchange.commandQueueCapacity then lane.checked[n]?.toList else []

/-- The rest of `enqueue`; a queue that is full drops the command. -/
def push (lane : Lane) (n : ℕ) : Lane :=
  { lane with
    queue := lane.queue ++ lane.pushes n
    checked := lane.checked.eraseIdx n }

/-- What a step of a worker does. -/
structure Step where
  lane : Lane
  /-- The counter of the trade ids. -/
  tradeId : TradeID
  /-- The task that goes into the queue of the database worker. -/
  queued : List (DatabaseTask Double)
  /-- The tasks that a handler makes. -/
  created : List (DatabaseTask Double)
  /-- The command that is finished. -/
  finished : List (Command Double)

/-- A step of `runLoop`; `none` when a handler reads an object that is gone. -/
def work (lane : Lane) (clock : Clock) (tradeId : TradeID) : Option Step :=
  match lane.worker with
  | .dequeuing batch =>
      match lane.queue with
      | [] => some ⟨{ lane with worker := .processing batch }, tradeId, [], [], []⟩
      | command :: queue =>
          if batch.length < WorkerThread.batchSize then
            some ⟨{ lane with queue := queue, worker := .dequeuing (batch ++ [command]) },
              tradeId, [], [], []⟩
          else some ⟨{ lane with worker := .processing batch }, tradeId, [], [], []⟩
  | .processing [] => some ⟨{ lane with worker := .dequeuing [] }, tradeId, [], [], []⟩
  | .processing (command :: batch) => do
      let s ← { lane.partition with currentId := tradeId }.processCommand clock command
      let tasks := (s.journal.drop lane.partition.journal.length).flatMap Event.tasks
      return ⟨{ lane with partition := s, worker := .handling command tasks batch },
        s.currentId, [], tasks, []⟩
  | .handling command [] batch =>
      some ⟨{ lane with worker := .processing batch }, tradeId, [], [], [command]⟩
  | .handling command (task :: tasks) batch =>
      some ⟨{ lane with worker := .handling command tasks batch }, tradeId, [task], [], []⟩

/-- The commands that are in the queue or with the worker. -/
def content (lane : Lane) : List (Command Double) := lane.worker.unfinished ++ lane.queue

/-- Nothing is left to do, and nothing can come. -/
structure Quiet (lane : Lane) : Prop where
  accepting : lane.accepting = false
  checked : lane.checked = []
  queue : lane.queue = []
  unfinished : lane.worker.unfinished = []

variable {lane : Lane} {clock : Clock} {tradeId : TradeID} {step : Step}

theorem content_push (lane : Lane) (n : ℕ) :
    (lane.push n).content = lane.content ++ lane.pushes n := by
  simp [push, content]

/-- What a step of a worker keeps. -/
structure Keeps (lane : Lane) (step : Step) : Prop where
  content : step.finished ++ step.lane.content = lane.content
  pending : step.queued ++ step.lane.worker.pending = lane.worker.pending ++ step.created
  accepting : step.lane.accepting = lane.accepting
  checked : step.lane.checked = lane.checked

theorem work_keeps (h : lane.work clock tradeId = some step) : lane.Keeps step := by
  unfold work at h
  split at h
  · next batch hworker =>
      split at h
      · next hqueue =>
          obtain rfl := Option.some.inj h
          constructor <;> simp [Lane.content, hworker, hqueue, WorkerState.unfinished,
            WorkerState.pending]
      · next command queue hqueue =>
          split_ifs at h
          · obtain rfl := Option.some.inj h
            constructor <;> simp [Lane.content, hworker, hqueue, WorkerState.unfinished,
              WorkerState.pending]
          · obtain rfl := Option.some.inj h
            constructor <;> simp [Lane.content, hworker, hqueue, WorkerState.unfinished,
              WorkerState.pending]
  · next hworker =>
      obtain rfl := Option.some.inj h
      constructor <;> simp [Lane.content, hworker, WorkerState.unfinished, WorkerState.pending]
  · next command batch hworker =>
      obtain ⟨s, _, h⟩ := Option.bind_eq_some_iff.mp h
      obtain rfl := Option.some.inj h
      constructor <;> simp [Lane.content, hworker, WorkerState.unfinished, WorkerState.pending]
  · next command batch hworker =>
      obtain rfl := Option.some.inj h
      constructor <;> simp [Lane.content, hworker, WorkerState.unfinished, WorkerState.pending]
  · next command task tasks batch hworker =>
      obtain rfl := Option.some.inj h
      constructor <;> simp [Lane.content, hworker, WorkerState.unfinished, WorkerState.pending]

/-- A quiet partition stays quiet, and its worker has nothing to queue. -/
theorem Quiet.work (hquiet : lane.Quiet) (h : lane.work clock tradeId = some step) :
    step.lane.Quiet ∧ step.queued = [] := by
  have hkeeps := work_keeps h
  have hcontent := hkeeps.content
  rw [Lane.content, Lane.content, hquiet.unfinished, hquiet.queue, List.append_nil] at hcontent
  obtain ⟨_, hrest⟩ := List.append_eq_nil_iff.mp hcontent
  obtain ⟨hunfinished, hqueue⟩ := List.append_eq_nil_iff.mp hrest
  refine ⟨⟨?_, ?_, hqueue, hunfinished⟩, ?_⟩
  · rw [hkeeps.accepting, hquiet.accepting]
  · rw [hkeeps.checked, hquiet.checked]
  · have hworker := hquiet.unfinished
    unfold Lane.work at h
    split at h
    · split at h
      · rw [← Option.some.inj h]
      · split_ifs at h <;> rw [← Option.some.inj h]
    · rw [← Option.some.inj h]
    · next heq => simp [heq, WorkerState.unfinished] at hworker
    · rw [← Option.some.inj h]
    · next heq => simp [heq, WorkerState.unfinished] at hworker

theorem Quiet.check (hquiet : lane.Quiet) (command : Command Double) :
    lane.check command = lane := by
  simp [Lane.check, hquiet.accepting]

theorem Quiet.push (hquiet : lane.Quiet) (n : ℕ) : lane.push n = lane := by
  have hpushes : lane.pushes n = [] := by simp [Lane.pushes, hquiet.checked]
  cases lane
  have hchecked := hquiet.checked
  simp_all [Lane.push]

end Lane

/-! ## The trading core -/

/-- A task with the partition whose repository has queued it. -/
abbrev TaggedTask := Instrument × DatabaseTask Double

def OrderTable.executeTagged (table : OrderTable Double) (task : TaggedTask) : OrderTable Double :=
  table.execute task.2

/-- Where the thread is that stops the core. -/
inductive MainState where
  | serving
  /-- In `stopAcceptingCommands`, with the partitions that still accept. -/
  | stopping (rest : List Instrument)
  /-- In a round of `waitAllQueuesIdle`, with the partitions whose queues have not
  been read and `total_queue_size`. -/
  | waiting (rest : List Instrument) (total : ℕ)
  /-- `waitAllQueuesIdle` has returned. -/
  | idle
  deriving DecidableEq

structure TradingCore where
  lanes : Instrument → Lane
  tradeId : TradeID
  database : DatabaseWorker TaggedTask (OrderTable Double)
  main : MainState
  /-- A handler that reads an object that is gone ends the process. -/
  running : Bool

inductive DrainEvent where
  /-- A submitter calls `enqueue` and looks at the flag. -/
  | check (symbol : Instrument) (command : Command Double)
  /-- The submitter at `n` of those that have found the flag set goes on. -/
  | push (symbol : Instrument) (n : ℕ)
  | work (symbol : Instrument) (clock : Clock)
  | database
  | main

namespace TradingCore

def start (partitions : Instrument → Partition Double) (tradeId : TradeID)
    (table : OrderTable Double) : TradingCore where
  lanes := fun symbol => .start (partitions symbol)
  tradeId := tradeId
  database := .start table
  main := .serving
  running := true

def setLane (core : TradingCore) (symbol : Instrument) (lane : Lane) : TradingCore :=
  { core with lanes := Function.update core.lanes symbol lane }

/-- A step of the worker of a partition. -/
def work (core : TradingCore) (symbol : Instrument) (clock : Clock) : TradingCore :=
  match (core.lanes symbol).work clock core.tradeId with
  | none => { core with running := false }
  | some step =>
      { core.setLane symbol step.lane with
        tradeId := step.tradeId
        database := (step.queued.map (Prod.mk symbol)).foldl DatabaseWorker.enqueue core.database }

/-- A step of `stopAcceptingCommands` and `waitAllQueuesIdle`. -/
def advance (core : TradingCore) : TradingCore :=
  match core.main with
  | .serving => { core with main := .stopping Instrument.all }
  | .stopping [] => { core with main := .waiting Instrument.all 0 }
  | .stopping (symbol :: rest) =>
      { core.setLane symbol { core.lanes symbol with accepting := false } with
        main := .stopping rest }
  | .waiting (symbol :: rest) total =>
      { core with main := .waiting rest (total + (core.lanes symbol).queue.length) }
  | .waiting [] total =>
      { core with
        main := if total + core.database.tasks.length = 0 then .idle
          else .waiting Instrument.all 0 }
  | .idle => core

def step (core : TradingCore) (event : DrainEvent) : TradingCore :=
  if core.running then
    match event with
    | .check symbol command => core.setLane symbol ((core.lanes symbol).check command)
    | .push symbol n => core.setLane symbol ((core.lanes symbol).push n)
    | .work symbol clock => core.work symbol clock
    | .database => { core with database := core.database.workerLoop OrderTable.executeTagged }
    | .main => core.advance
  else core

def run (core : TradingCore) (events : List DrainEvent) : TradingCore := events.foldl step core

/-- The step that an event makes the worker of a partition take. -/
def workOf (core : TradingCore) (symbol : Instrument) : DrainEvent → Option Lane.Step
  | .work other clock =>
      if core.running ∧ other = symbol then (core.lanes symbol).work clock core.tradeId else none
  | _ => none

/-- The commands that an event puts into the queue of a partition. -/
def accepts (core : TradingCore) (symbol : Instrument) : DrainEvent → List (Command Double)
  | .push other n =>
      if core.running ∧ other = symbol then (core.lanes symbol).pushes n else []
  | _ => []

/-- The commands of a partition that an event finishes. -/
def finishes (core : TradingCore) (symbol : Instrument) (event : DrainEvent) :
    List (Command Double) :=
  ((core.workOf symbol event).map Lane.Step.finished).getD []

/-- The tasks that the commands of a partition make. -/
def creates (core : TradingCore) (symbol : Instrument) (event : DrainEvent) :
    List (DatabaseTask Double) :=
  ((core.workOf symbol event).map Lane.Step.created).getD []

/-- The tasks that a partition has queued, among those that are tagged. -/
def ownTasks (symbol : Instrument) (tasks : List TaggedTask) : List (DatabaseTask Double) :=
  (tasks.filter fun task => task.1 = symbol).map Prod.snd

/-- The tasks of a partition that an event has executed. -/
def executes (core : TradingCore) (symbol : Instrument) : DrainEvent → List (DatabaseTask Double)
  | .database => if core.running then ownTasks symbol core.database.loop.inFlight else []
  | _ => []

@[simp] theorem ownTasks_append (symbol : Instrument) (tasks tasks' : List TaggedTask) :
    ownTasks symbol (tasks ++ tasks') = ownTasks symbol tasks ++ ownTasks symbol tasks' := by
  simp [ownTasks]

@[simp] theorem ownTasks_nil (symbol : Instrument) : ownTasks symbol [] = [] := rfl

@[simp] theorem ownTasks_self (symbol : Instrument) (tasks : List (DatabaseTask Double)) :
    ownTasks symbol (tasks.map (Prod.mk symbol)) = tasks := by
  simp [ownTasks, List.filter_map, Function.comp_def]

theorem ownTasks_of_ne {symbol other : Instrument} (h : other ≠ symbol)
    (tasks : List (DatabaseTask Double)) : ownTasks symbol (tasks.map (Prod.mk other)) = [] := by
  simp [ownTasks, List.filter_map, Function.comp_def, h]

variable {core : TradingCore} {symbol : Instrument} {event : DrainEvent}

@[simp] theorem setLane_self (lane : Lane) : (core.setLane symbol lane).lanes symbol = lane :=
  Function.update_self _ _ _

theorem setLane_of_ne {other : Instrument} (h : symbol ≠ other) (lane : Lane) :
    (core.setLane other lane).lanes symbol = core.lanes symbol := Function.update_of_ne h _ _

/-- What holds of a lane still does when it or another one has been set. -/
theorem setLane_induction {Q : Lane → Prop} (h : Q (core.lanes symbol)) (other : Instrument)
    {lane : Lane} (hlane : other = symbol → Q lane) :
    Q ((core.setLane other lane).lanes symbol) := by
  by_cases hother : symbol = other
  · subst hother
    rw [setLane_self]
    exact hlane rfl
  · rwa [setLane_of_ne hother]

theorem inFlight_append_content (core : TradingCore) :
    core.database.loop.inFlight ++
      (core.database.workerLoop OrderTable.executeTagged).content = core.database.content := by
  have hconserved : core.database.loop.inFlight ++
      (core.database.workerLoop OrderTable.executeTagged).content =
        core.database.content ++ [] :=
    DatabaseWorker.completes_append_content core.database .loop
  rwa [List.append_nil] at hconserved

/-! ## What goes through the queues -/

theorem commands_conserved (core : TradingCore) (symbol : Instrument) (event : DrainEvent) :
    core.finishes symbol event ++ ((core.step event).lanes symbol).content =
      (core.lanes symbol).content ++ core.accepts symbol event := by
  unfold step
  split_ifs with hrunning
  · cases event with
    | check other command =>
        by_cases h : symbol = other
        · subst h
          have hcontent : ((core.lanes symbol).check command).content =
              (core.lanes symbol).content := by
            unfold Lane.check
            split_ifs <;> rfl
          simp [finishes, workOf, accepts, hcontent]
        · simp [finishes, workOf, accepts, setLane_of_ne h]
    | push other n =>
        by_cases h : symbol = other
        · subst h
          simp [finishes, workOf, accepts, hrunning, Lane.content_push]
        · simp [finishes, workOf, accepts, setLane_of_ne h, Ne.symm h]
    | work other clock =>
        by_cases h : symbol = other
        · subst h
          simp only [finishes, workOf, accepts, work, hrunning, and_self, if_true]
          cases hwork : (core.lanes symbol).work clock core.tradeId with
          | none => simp
          | some step => simp [(Lane.work_keeps hwork).content]
        · have hlane : ((core.work other clock).lanes symbol) = core.lanes symbol := by
            unfold work
            split
            · rfl
            · exact setLane_of_ne h _
          simp [finishes, workOf, accepts, hlane, Ne.symm h]
    | database => simp [finishes, workOf, accepts]
    | main =>
        have hlane : (core.advance.lanes symbol).content = (core.lanes symbol).content := by
          unfold advance
          split
          · rfl
          · rfl
          · next other rest _ =>
              by_cases h : symbol = other
              · subst h
                simp [Lane.content]
              · simp [setLane_of_ne h]
          · rfl
          · rfl
          · rfl
        simp [finishes, workOf, accepts, hlane]
  · have hnone : core.workOf symbol event = none := by cases event <;> simp [workOf, hrunning]
    have haccepts : core.accepts symbol event = [] := by cases event <;> simp [accepts, hrunning]
    simp [finishes, hnone, haccepts]

/-- The tasks of a partition that are still to be executed, with those that its
worker has yet to queue. -/
def unexecuted (core : TradingCore) (symbol : Instrument) : List (DatabaseTask Double) :=
  ownTasks symbol core.database.content ++ (core.lanes symbol).worker.pending

theorem pending_advance (core : TradingCore) (symbol : Instrument) :
    (core.advance.lanes symbol).worker = (core.lanes symbol).worker := by
  unfold advance
  split
  · rfl
  · rfl
  · next other rest _ =>
      by_cases h : symbol = other
      · subst h
        simp
      · simp [setLane_of_ne h]
  · rfl
  · rfl
  · rfl

theorem tasks_conserved (core : TradingCore) (symbol : Instrument) (event : DrainEvent) :
    core.executes symbol event ++ (core.step event).unexecuted symbol =
      core.unexecuted symbol ++ core.creates symbol event := by
  unfold step
  split_ifs with hrunning
  · cases event with
    | check other command =>
        by_cases h : symbol = other
        · subst h
          have hworker : ((core.lanes symbol).check command).worker =
              (core.lanes symbol).worker := by
            unfold Lane.check
            split_ifs <;> rfl
          simp only [executes, creates, workOf, unexecuted, setLane_self, hworker]
          simp [setLane]
        · simp only [executes, creates, workOf, unexecuted, setLane_of_ne h]
          simp [setLane]
    | push other n =>
        by_cases h : symbol = other
        · subst h
          simp only [executes, creates, workOf, unexecuted, setLane_self]
          simp [setLane, Lane.push]
        · simp only [executes, creates, workOf, unexecuted, setLane_of_ne h]
          simp [setLane]
    | work other clock =>
        simp only [executes, List.nil_append]
        by_cases h : symbol = other
        · subst h
          simp only [creates, workOf, work, hrunning, and_self, if_true]
          cases hwork : (core.lanes symbol).work clock core.tradeId with
          | none => simp [unexecuted]
          | some step =>
              have hpending := (Lane.work_keeps hwork).pending
              simp [unexecuted, DatabaseWorker.content_foldl_enqueue, hpending]
        · unfold work
          split
          · simp [creates, workOf, unexecuted, Ne.symm h]
          · simp [creates, workOf, unexecuted, Ne.symm h, setLane_of_ne h,
              DatabaseWorker.content_foldl_enqueue, ownTasks_of_ne (Ne.symm h)]
    | database =>
        have hown := congrArg (ownTasks symbol) core.inFlight_append_content
        rw [ownTasks_append] at hown
        simp [executes, creates, workOf, unexecuted, hrunning, ← hown]
    | main =>
        have hdatabase : core.advance.database = core.database := by
          unfold advance
          split <;> rfl
        simp [executes, creates, workOf, unexecuted, pending_advance, hdatabase]
  · have hnone : core.workOf symbol event = none := by cases event <;> simp [workOf, hrunning]
    have hexecutes : core.executes symbol event = [] := by cases event <;> simp [executes, hrunning]
    simp [creates, hnone, hexecutes]

/-- The way of the commands through a partition. -/
def commandPassage (symbol : Instrument) :
    Fifo.Passage step (fun _ => True) (Command Double) where
  content := fun core => (core.lanes symbol).content
  entering := fun core => core.accepts symbol
  leaving := fun core => core.finishes symbol
  conserves := fun core event _ => core.commands_conserved symbol event

/-- The way of the tasks of a partition into the database. -/
def taskPassage (symbol : Instrument) :
    Fifo.Passage step (fun _ => True) (DatabaseTask Double) where
  content := fun core => core.unexecuted symbol
  entering := fun core => core.creates symbol
  leaving := fun core => core.executes symbol
  conserves := fun core event _ => core.tasks_conserved symbol event

section Runs

variable (core : TradingCore) (symbol : Instrument) (events : List DrainEvent)

/-- The commands that `enqueue` has put into the queue of a partition. -/
def accepted : List (Command Double) := (commandPassage symbol).entered core events

/-- The commands that the worker of a partition has finished. -/
def processed : List (Command Double) := (commandPassage symbol).left core events

/-- The tasks that the commands of a partition have made. -/
def created : List (DatabaseTask Double) := (taskPassage symbol).entered core events

/-- The tasks of a partition that have been executed. -/
def executed : List (DatabaseTask Double) := (taskPassage symbol).left core events

end Runs

/-- Every command that was accepted has been processed, once and in its turn, and
so has every task that the commands made. -/
structure Drained (core : TradingCore) (events : List DrainEvent) : Prop where
  commands : ∀ symbol, core.processed symbol events = core.accepted symbol events
  tasks : ∀ symbol, core.executed symbol events = core.created symbol events

/-! ## A round that finds the threads idle -/

/-- In the round of `waitAllQueuesIdle` that is the last, the worker of a
partition has nothing in its batch and no submitter is on its way into the queue
when the size of the queue is read, and no task is being executed when the size
of the queue of the database worker is. -/
def FindsIdle (core : TradingCore) : DrainEvent → Prop
  | .main =>
      match core.main with
      | .waiting (symbol :: _) _ =>
          (core.lanes symbol).worker.unfinished = [] ∧ (core.lanes symbol).checked = []
      | .waiting [] total =>
          total + core.database.tasks.length = 0 ∧ core.database.loop.inFlight = []
      | _ => True
  | _ => True

/-- The flags that have been cleared when the thread is where it is. -/
def Closed (core : TradingCore) : Prop :=
  match core.main with
  | .serving => True
  | .stopping rest => ∀ symbol ∉ rest, (core.lanes symbol).accepting = false
  | _ => ∀ symbol, (core.lanes symbol).accepting = false

/-- What holds in the last round. -/
structure Draining (core : TradingCore) : Prop where
  closed : ∀ symbol, (core.lanes symbol).accepting = false
  state : match core.main with
    | .waiting rest total => ∀ symbol ∉ rest, total = 0 → (core.lanes symbol).Quiet
    | .idle => (∀ symbol, (core.lanes symbol).Quiet) ∧ core.database.content = []
    | _ => False

theorem main_step (h : event ≠ .main) : (core.step event).main = core.main := by
  unfold step
  split_ifs
  · cases event with
    | check other command => rfl
    | push other n => rfl
    | work other clock =>
        simp only [work]
        split <;> rfl
    | database => rfl
    | main => exact absurd rfl h
  · rfl

/-- Only the main thread changes what a flag says. -/
theorem accepting_step (h : event ≠ .main) (symbol : Instrument) :
    ((core.step event).lanes symbol).accepting = (core.lanes symbol).accepting := by
  have hset : ∀ other (lane : Lane), lane.accepting = (core.lanes other).accepting →
      ((core.setLane other lane).lanes symbol).accepting = (core.lanes symbol).accepting := by
    intro other lane hlane
    apply setLane_induction (Q := fun lane => lane.accepting = (core.lanes symbol).accepting) rfl
    rintro rfl
    exact hlane
  unfold step
  split_ifs
  · cases event with
    | check other command =>
        apply hset
        unfold Lane.check
        split_ifs <;> rfl
    | push other n => exact hset _ _ rfl
    | work other clock =>
        simp only [work]
        split
        · rfl
        · next hwork => exact hset _ _ (Lane.work_keeps hwork).accepting
    | database => rfl
    | main => exact absurd rfl h
  · rfl

theorem closed_step (h : core.Closed) (event : DrainEvent) : (core.step event).Closed := by
  by_cases hevent : event = .main
  · subst hevent
    unfold step
    split_ifs
    · simp only [advance]
      split
      · next hmain =>
          intro symbol hsymbol
          exact absurd (Instrument.mem_all symbol) hsymbol
      · next hmain =>
          simp only [Closed, hmain] at h ⊢
          exact fun symbol => h symbol List.not_mem_nil
      · next other rest hmain =>
          simp only [Closed, hmain] at h ⊢
          intro symbol hsymbol
          by_cases hother : symbol = other
          · subst hother
            simp
          · rw [show ∀ main, ({ core.setLane other { core.lanes other with accepting := false }
              with main := main } : TradingCore).lanes symbol = core.lanes symbol from
                fun _ => setLane_of_ne hother _]
            exact h symbol (List.not_mem_cons_of_ne_of_not_mem hother hsymbol)
      · next hmain =>
          simp only [Closed, hmain] at h ⊢
          exact h
      · next hmain =>
          simp only [Closed, hmain] at h ⊢
          split_ifs <;> exact h
      · exact h
    · exact h
  · simp only [Closed, main_step hevent, accepting_step hevent]
    exact h

theorem closed_run (partitions : Instrument → Partition Double) (tradeId : TradeID)
    (table : OrderTable Double) (events : List DrainEvent) :
    ((start partitions tradeId table).run events).Closed :=
  List.foldlRecOn events step trivial fun _ h event _ => closed_step h event

theorem quiet_step (h : (core.lanes symbol).Quiet) (event : DrainEvent) :
    ((core.step event).lanes symbol).Quiet := by
  unfold step
  split_ifs
  · cases event with
    | check other command =>
        apply setLane_induction h
        rintro rfl
        rwa [h.check]
    | push other n =>
        apply setLane_induction h
        rintro rfl
        rwa [h.push]
    | work other clock =>
        simp only [work]
        split
        · exact h
        · next hwork =>
            apply setLane_induction h
            rintro rfl
            exact (h.work hwork).1
    | database => exact h
    | main =>
        simp only [advance]
        split
        · exact h
        · exact h
        · apply setLane_induction h
          rintro rfl
          exact ⟨rfl, h.checked, h.queue, h.unfinished⟩
        · exact h
        · exact h
        · exact h
  · exact h

/-- Nothing comes to the database worker once all partitions are quiet. -/
theorem content_step (h : ∀ symbol, (core.lanes symbol).Quiet)
    (hempty : core.database.content = []) (event : DrainEvent) :
    (core.step event).database.content = [] := by
  unfold step
  split_ifs
  · cases event with
    | check other command => exact hempty
    | push other n => exact hempty
    | work other clock =>
        simp only [work]
        split
        · exact hempty
        · next hwork =>
            rw [DatabaseWorker.content_foldl_enqueue, ((h other).work hwork).2]
            simpa [setLane] using hempty
    | database =>
        have hconserved := core.inFlight_append_content
        rw [hempty] at hconserved
        exact (List.append_eq_nil_iff.mp hconserved).2
    | main =>
        simp only [advance]
        split <;> exact hempty
  · exact hempty

theorem draining_step (h : core.Draining) (hidle : core.FindsIdle event) :
    (core.step event).Draining := by
  obtain ⟨hclosed, hstate⟩ := h
  by_cases hevent : event = .main
  · subst hevent
    rw [FindsIdle] at hidle
    unfold step
    split_ifs
    · simp only [advance]
      split
      · next hmain => simp [hmain] at hstate
      · next hmain => simp [hmain] at hstate
      · next hmain => simp [hmain] at hstate
      · next symbol rest total hmain =>
          simp only [hmain] at hstate hidle
          refine ⟨hclosed, fun other hother htotal => ?_⟩
          obtain ⟨htotal, hqueue⟩ := Nat.add_eq_zero_iff.mp htotal
          by_cases heq : other = symbol
          · subst heq
            exact ⟨hclosed other, hidle.2, List.eq_nil_of_length_eq_zero hqueue, hidle.1⟩
          · exact hstate other (List.not_mem_cons_of_ne_of_not_mem heq hother) htotal
      · next total hmain =>
          simp only [hmain] at hstate hidle
          obtain ⟨htotal, hinFlight⟩ := hidle
          obtain ⟨hzero, htasks⟩ := Nat.add_eq_zero_iff.mp htotal
          refine ⟨hclosed, ?_⟩
          rw [if_pos htotal]
          refine ⟨fun symbol => hstate symbol List.not_mem_nil hzero, ?_⟩
          rw [DatabaseWorker.content, hinFlight, List.eq_nil_of_length_eq_zero htasks]
          rfl
      · exact ⟨hclosed, hstate⟩
    · exact ⟨hclosed, hstate⟩
  · refine ⟨fun symbol => ?_, ?_⟩
    · rw [accepting_step hevent]
      exact hclosed symbol
    · rw [main_step hevent]
      cases hmain : core.main with
      | serving => simp [hmain] at hstate
      | stopping rest => simp [hmain] at hstate
      | waiting rest total =>
          simp only [hmain] at hstate ⊢
          exact fun symbol hsymbol htotal => quiet_step (hstate symbol hsymbol htotal) event
      | idle =>
          simp only [hmain] at hstate ⊢
          exact ⟨fun symbol => quiet_step (hstate.1 symbol) event,
            content_step hstate.1 hstate.2 event⟩

/-- If the last round of the wait finds the threads idle, everything has been
done when the wait is over, and nothing comes after it. -/
theorem drained_of_findsIdle (partitions : Instrument → Partition Double) (tradeId : TradeID)
    (table : OrderTable Double) (early last : List DrainEvent)
    (hround : ((start partitions tradeId table).run early).main = .waiting Instrument.all 0)
    (hidle : TotalRun.Meets step FindsIdle ((start partitions tradeId table).run early) last)
    (hreturned : ((start partitions tradeId table).run (early ++ last)).main = .idle) :
    (start partitions tradeId table).Drained (early ++ last) := by
  have hbegin : ((start partitions tradeId table).run early).Draining := by
    have hclosed := closed_run partitions tradeId table early
    simp only [Closed, hround] at hclosed
    refine ⟨hclosed, ?_⟩
    rw [hround]
    intro symbol hsymbol
    exact absurd (Instrument.mem_all symbol) hsymbol
  have hend : ((start partitions tradeId table).run (early ++ last)).Draining := by
    rw [run, List.foldl_append]
    exact TotalRun.foldl_induction Draining (fun _ _ h hidle => draining_step h hidle) hbegin hidle
  have hstate := hend.state
  rw [hreturned] at hstate
  obtain ⟨hquiet, hempty⟩ := hstate
  constructor
  · intro symbol
    refine (commandPassage symbol).left_of_content_eq_nil (fun _ _ => trivial) ?_
    have hlane := hquiet symbol
    change ((start partitions tradeId table).run (early ++ last) |>.lanes symbol).content = []
    rw [Lane.content, hlane.unfinished, hlane.queue, List.append_nil]
  · intro symbol
    refine (taskPassage symbol).left_of_content_eq_nil (fun _ _ => trivial) ?_
    change ((start partitions tradeId table).run (early ++ last)).unexecuted symbol = []
    rw [unexecuted, hempty, WorkerState.pending_eq_nil (hquiet symbol).unfinished]
    rfl

/-! ## Rounds that find it and rounds that do not -/

end TradingCore

namespace TradingCore

namespace Sample

def command : Command Double := .cancelOrder { clientId := "1", timestamp := 0, orderId := 1 }

/-- All partitions are empty. -/
def empty : TradingCore := start (fun symbol => .init symbol 0) 0 []

/-- A command comes into a queue, and its worker dequeues it. -/
def dequeued : List DrainEvent :=
  [.check .eurusd command, .push .eurusd 0, .work .eurusd fun _ => 0]

/-- `stopAcceptingCommands`. -/
def stop : List DrainEvent := List.replicate (Instrument.all.length + 2) .main

/-- A round of `waitAllQueuesIdle`. -/
def round : List DrainEvent := List.replicate (Instrument.all.length + 1) .main

/-- The rest of the batch, with the rejection that the worker publishes. -/
def finished : List DrainEvent := List.replicate 3 (.work .eurusd fun _ => 0)

end Sample

theorem drained_of_findsIdle_sample :
    (((Sample.empty.run (Sample.dequeued ++ Sample.stop ++ Sample.finished)).main =
        .waiting Instrument.all 0 ∧
      (Sample.empty.accepted .eurusd
        (Sample.dequeued ++ Sample.stop ++ Sample.finished)).length = 1) ∧
    Sample.empty.Drained (Sample.dequeued ++ Sample.stop ++ Sample.finished ++ Sample.round)) := by
  have hround : (Sample.empty.run (Sample.dequeued ++ Sample.stop ++ Sample.finished)).main =
      .waiting Instrument.all 0 := by decide +kernel
  refine ⟨⟨hround, by decide +kernel⟩, ?_⟩
  refine drained_of_findsIdle (fun symbol => .init symbol 0) 0 [] _ Sample.round hround ?_ ?_
  · exact ⟨⟨rfl, rfl⟩, ⟨rfl, rfl⟩, ⟨rfl, rfl⟩, ⟨rfl, rfl⟩, ⟨rfl, rfl⟩, ⟨rfl, rfl⟩, ⟨rfl, rfl⟩,
      ⟨rfl, rfl⟩, ⟨rfl, rfl⟩, ⟨rfl, rfl⟩, trivial⟩
  · decide +kernel

/-- The wait is over while a command is in the batch of a worker. -/
theorem batch_overlooked :
    ¬∀ (partitions : Instrument → Partition Double) (tradeId : TradeID)
      (table : OrderTable Double) (events : List DrainEvent),
      ((start partitions tradeId table).run events).main = .idle →
        (start partitions tradeId table).Drained events := by
  intro h
  have hreturned : (Sample.empty.run (Sample.dequeued ++ Sample.stop ++ Sample.round)).main =
      .idle := by decide +kernel
  have hdrained := (h _ _ _ _ hreturned).commands .eurusd
  have hlength := congrArg List.length hdrained
  revert hlength
  decide +kernel

end TradingCore

end BetaTrader
