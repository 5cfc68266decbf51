import BetaTrader.Exchange.TradeIDGenerator
import BetaTrader.Lib.Fifo
import BetaTrader.Lib.Run

/-!
# The database worker

`DatabaseWorker` owns a queue of tasks and the thread that executes them.  Any
thread may put a task into the queue; the thread of the worker takes one step of
`workerLoop` at a time, and the destructor asks it to stop and waits for it.
-/

namespace BetaTrader

/-- Where `workerLoop` is. -/
inductive LoopState (Task : Type) where
  /-- Before `stop_requested()`. -/
  | checking
  /-- In `wait_for`, whose predicate and timeout come before `mTasks.empty()`. -/
  | polling
  /-- In `task(db)`. -/
  | running (task : Task)
  | exited
  deriving DecidableEq

structure DatabaseWorker (Task Database : Type) where
  /-- `mTasks`. -/
  tasks : List Task
  stopRequested : Bool
  loop : LoopState Task
  database : Database

inductive DatabaseEvent (Task : Type) where
  | enqueue (task : Task)
  /-- A step of `workerLoop`. -/
  | loop
  /-- The destructor begins. -/
  | requestStop
  deriving DecidableEq

/-- The task that is being executed. -/
def LoopState.inFlight {Task : Type} : LoopState Task → List Task
  | .running task => [task]
  | _ => []

/-- How many tasks the loop still executes if it is to stop. -/
def LoopState.budget {Task : Type} : LoopState Task → ℕ
  | .polling | .running _ => 1
  | .checking | .exited => 0

namespace DatabaseWorker

variable {Task Database : Type}

def start (database : Database) : DatabaseWorker Task Database where
  tasks := []
  stopRequested := false
  loop := .checking
  database := database

def enqueue (worker : DatabaseWorker Task Database) (task : Task) :
    DatabaseWorker Task Database :=
  { worker with tasks := worker.tasks ++ [task] }

section Loop

variable (execute : Database → Task → Database)

def workerLoop (worker : DatabaseWorker Task Database) : DatabaseWorker Task Database :=
  match worker.loop with
  | .checking => { worker with loop := if worker.stopRequested then .exited else .polling }
  | .polling =>
      match worker.tasks with
      | [] => { worker with loop := .checking }
      | task :: tasks => { worker with tasks := tasks, loop := .running task }
  | .running task =>
      { worker with database := execute worker.database task, loop := .checking }
  | .exited => worker

def step (worker : DatabaseWorker Task Database) :
    DatabaseEvent Task → DatabaseWorker Task Database
  | .enqueue task => worker.enqueue task
  | .loop => worker.workerLoop execute
  | .requestStop => { worker with stopRequested := true }

def run (worker : DatabaseWorker Task Database) (events : List (DatabaseEvent Task)) :
    DatabaseWorker Task Database :=
  events.foldl (step execute) worker

end Loop

/-- The tasks that have been queued and not executed. -/
def content (worker : DatabaseWorker Task Database) : List Task :=
  worker.loop.inFlight ++ worker.tasks

/-- What an event puts into the queue. -/
def enters : DatabaseEvent Task → List Task
  | .enqueue task => [task]
  | _ => []

/-- What an event has executed. -/
def completes (worker : DatabaseWorker Task Database) : DatabaseEvent Task → List Task
  | .loop => worker.loop.inFlight
  | _ => []

variable {execute : Database → Task → Database} {worker : DatabaseWorker Task Database}
  {event : DatabaseEvent Task} {events : List (DatabaseEvent Task)}

theorem completes_append_content (worker : DatabaseWorker Task Database)
    (event : DatabaseEvent Task) :
    worker.completes event ++ (worker.step execute event).content =
      worker.content ++ enters event := by
  cases event with
  | enqueue task => simp [completes, step, enqueue, content, enters]
  | requestStop => simp [completes, step, content, enters]
  | loop =>
      simp only [step, workerLoop, completes, enters, List.append_nil]
      cases hloop : worker.loop with
      | checking => cases hstop : worker.stopRequested <;> simp [content, hloop, LoopState.inFlight]
      | polling => cases htasks : worker.tasks <;> simp [content, hloop, htasks, LoopState.inFlight]
      | running task => simp [content, hloop, LoopState.inFlight]
      | exited => simp [content, hloop, LoopState.inFlight]

theorem content_foldl_enqueue (worker : DatabaseWorker Task Database) (tasks : List Task) :
    (tasks.foldl enqueue worker).content = worker.content ++ tasks := by
  induction tasks generalizing worker with
  | nil => simp
  | cons task tasks ih =>
      rw [List.foldl_cons, ih]
      simp [enqueue, content]

/-- The way of the tasks through the worker. -/
def passage (execute : Database → Task → Database) :
    Fifo.Passage (step execute) (fun _ => True) Task where
  content := content
  entering := fun _ => enters
  leaving := completes
  conserves := fun worker event _ => completes_append_content worker event

section Runs

variable (execute : Database → Task → Database) (worker : DatabaseWorker Task Database)
  (events : List (DatabaseEvent Task))

/-- The tasks that have been put into the queue in a run. -/
def enqueued : List Task := (passage execute).entered worker events

/-- The tasks that have been executed in a run. -/
def executed : List Task := (passage execute).left worker events

theorem executed_append_content :
    worker.executed execute events ++ (worker.run execute events).content =
      worker.content ++ worker.enqueued execute events :=
  (passage execute).left_append_content fun _ _ => trivial

end Runs

/-- The database has seen the executed tasks, in their order. -/
theorem database_run (events : List (DatabaseEvent Task)) :
    (worker.run execute events).database =
      (worker.executed execute events).foldl execute worker.database := by
  have hstep : ∀ (worker : DatabaseWorker Task Database) (event : DatabaseEvent Task),
      (worker.step execute event).database =
        (worker.completes event).foldl execute worker.database := by
    intro worker event
    cases event with
    | enqueue task => rfl
    | requestStop => rfl
    | loop =>
        simp only [step, workerLoop, completes]
        split
        · next hloop => simp [hloop, LoopState.inFlight]
        · next hloop => split <;> simp [hloop, LoopState.inFlight]
        · next hloop => simp [hloop, LoopState.inFlight]
        · next hloop => simp [hloop, LoopState.inFlight]
  induction events generalizing worker with
  | nil => rfl
  | cons event events ih =>
      have hexecuted : worker.executed execute (event :: events) =
          worker.completes event ++ (worker.step execute event).executed execute events := rfl
      rw [run, List.foldl_cons, hexecuted, List.foldl_append, ← hstep]
      exact ih

/-! ## Stopping -/

theorem step_stopRequested (execute : Database → Task → Database) (h : worker.stopRequested)
    (event : DatabaseEvent Task) :
    (worker.step execute event).stopRequested := by
  cases event with
  | enqueue task => exact h
  | requestStop => rfl
  | loop =>
      simp only [step, workerLoop]
      split
      · exact h
      · split <;> exact h
      · exact h
      · exact h

/-- What a step of a stopping worker leaves of what it still executes. -/
theorem length_completes_add_budget (execute : Database → Task → Database)
    (h : worker.stopRequested) (event : DatabaseEvent Task) :
    (worker.completes event).length + (worker.step execute event).loop.budget ≤
      worker.loop.budget := by
  cases event with
  | enqueue task => simp [completes, step, enqueue]
  | requestStop => simp [completes, step]
  | loop =>
      simp only [completes, step, workerLoop, h, if_true]
      cases hloop : worker.loop with
      | checking => simp [LoopState.inFlight, LoopState.budget]
      | polling => cases worker.tasks <;> simp [LoopState.inFlight, LoopState.budget]
      | running task => simp [LoopState.inFlight, LoopState.budget]
      | exited => simp [hloop, LoopState.inFlight, LoopState.budget]

/-- A stopping worker executes one task more at most. -/
theorem length_executed_le (execute : Database → Task → Database) (h : worker.stopRequested)
    (events : List (DatabaseEvent Task)) :
    (worker.executed execute events).length ≤ worker.loop.budget := by
  induction events generalizing worker with
  | nil => exact Nat.zero_le _
  | cons event events ih =>
      have hrest := ih (step_stopRequested execute h event)
      have hfirst := length_completes_add_budget execute h event
      have hexecuted : (worker.executed execute (event :: events)).length =
          (worker.completes event).length +
            ((worker.step execute event).executed execute events).length :=
        List.length_append
      omega

/-- A task that is in flight, or that the loop is about to take, is executed
before the loop exits. -/
theorem le_length_executed (h : worker.stopRequested)
    (hexited : (worker.run execute events).loop = .exited) :
    min worker.content.length worker.loop.budget ≤ (worker.executed execute events).length := by
  induction events generalizing worker with
  | nil =>
      have hloop : worker.loop = .exited := hexited
      simp [hloop, LoopState.budget]
  | cons event events ih =>
      have hrest := ih (step_stopRequested execute h event) hexited
      have hexecuted : (worker.executed execute (event :: events)).length =
          (worker.completes event).length +
            ((worker.step execute event).executed execute events).length :=
        List.length_append
      rw [hexecuted]
      refine le_trans ?_ (Nat.add_le_add_left hrest _)
      cases event with
      | enqueue task =>
          simp only [completes, step, enqueue, content, List.length_append, List.length_nil]
          omega
      | requestStop => simp [completes, step, content]
      | loop =>
          simp only [completes, step, workerLoop, content, h, if_true]
          cases hloop : worker.loop with
          | checking => simp [LoopState.inFlight, LoopState.budget]
          | polling => cases worker.tasks <;> simp [LoopState.inFlight, LoopState.budget]
          | running task => simp [LoopState.inFlight, LoopState.budget]
          | exited => simp [hloop, LoopState.inFlight, LoopState.budget]

/-- All that a stopping worker still has is executed exactly if the loop takes
as much. -/
theorem content_prefix_executed_iff (h : worker.stopRequested)
    (hexited : (worker.run execute events).loop = .exited) :
    worker.content <+: worker.executed execute events ↔
      worker.content.length ≤ worker.loop.budget := by
  have hlaw := executed_append_content execute worker events
  have hle := length_executed_le execute h events
  have hge := le_length_executed h hexited
  constructor
  · intro hprefix
    exact hprefix.length_le.trans hle
  · intro hfits
    apply List.prefix_of_prefix_length_le ⟨_, rfl⟩ ⟨_, hlaw⟩
    omega

theorem stopRequested_run (execute : Database → Task → Database) (database : Database)
    (events : List (DatabaseEvent Task)) :
    ((start database).run execute events).stopRequested = true ↔ .requestStop ∈ events := by
  induction events using List.reverseRecOn with
  | nil => simp [run, start]
  | append_singleton events event ih =>
      have hstep : ∀ worker : DatabaseWorker Task Database,
          (worker.step execute event).stopRequested = true ↔
            worker.stopRequested = true ∨ event = .requestStop := by
        intro worker
        cases event with
        | enqueue task => simp [step, enqueue]
        | requestStop => simp [step]
        | loop =>
            simp only [step, workerLoop, reduceCtorEq, or_false]
            split
            · rfl
            · split <;> rfl
            · rfl
            · rfl
      rw [run, List.foldl_append, List.foldl_cons, List.foldl_nil, hstep, List.mem_append,
        List.mem_singleton, eq_comm (a := event)]
      exact or_congr_left ih

/-! ## What may be lost -/

section Promise

variable (execute : Database → Task → Database) (database : Database)
  (events : List (DatabaseEvent Task))

/-- What the worker is to do: the tasks are executed in the order in which they
were queued, and when the destructor is back, all that had been queued when it
began has been executed. -/
structure LosesNothing : Prop where
  inOrder : ∀ moment, moment <+: events →
    (start database).executed execute moment <+: (start database).enqueued execute moment
  complete : ∀ before after, events = before ++ .requestStop :: after → .requestStop ∉ before →
    ((start database).run execute events).loop = .exited →
      (start database).enqueued execute before <+: (start database).executed execute events

/-- The destructor begins when nothing is queued but what the loop still takes. -/
def StopsEmpty (worker : DatabaseWorker Task Database) (event : DatabaseEvent Task) : Prop :=
  event = .requestStop → worker.stopRequested = false →
    worker.content.length ≤ worker.loop.budget

theorem executed_prefix_enqueued :
    (start database).executed execute events <+: (start database).enqueued execute events :=
  ⟨_, executed_append_content execute (start database) events⟩

variable {execute database}

/-- What had been queued when the destructor began has been executed exactly if
the loop has taken as much as there was. -/
theorem enqueued_prefix_executed_iff {before after : List (DatabaseEvent Task)}
    (hexited : ((start database).run execute (before ++ .requestStop :: after)).loop = .exited) :
    (start database).enqueued execute before <+:
        (start database).executed execute (before ++ .requestStop :: after) ↔
      ((start database).run execute before).content.length ≤
        ((start database).run execute before).loop.budget := by
  have hlaw := executed_append_content execute (start database) before
  have hexecuted : (start database).executed execute (before ++ .requestStop :: after) =
      (start database).executed execute before ++
        (((start database).run execute before).step execute .requestStop).executed execute after :=
    Fifo.outputs_append
  have hrun : (start database).run execute (before ++ .requestStop :: after) =
      (((start database).run execute before).step execute .requestStop).run execute after :=
    List.foldl_append
  have hstart : ((start database : DatabaseWorker Task Database)).content = [] := rfl
  rw [hstart, List.nil_append] at hlaw
  rw [hrun] at hexited
  rw [← hlaw, hexecuted, List.prefix_append_right_inj]
  have hstopped : (((start database).run execute before).step execute .requestStop).stopRequested :=
    rfl
  exact content_prefix_executed_iff hstopped hexited

/-- The worker loses nothing exactly if its destructor finds nothing that the
loop does not take. -/
theorem losesNothing_iff (execute : Database → Task → Database) (database : Database)
    (events : List (DatabaseEvent Task)) :
    LosesNothing execute database events ↔
      (((start database).run execute events).loop = .exited →
        TotalRun.Meets (step execute) StopsEmpty (start database) events) := by
  constructor
  · intro h hexited
    refine TotalRun.meets_iff_forall.mpr fun before event after hevents => ?_
    rintro rfl hlive
    have hbefore : .requestStop ∉ before := by
      rw [← stopRequested_run execute database, run, hlive]
      exact Bool.false_ne_true
    have hcomplete := h.complete before after hevents hbefore hexited
    subst hevents
    exact (enqueued_prefix_executed_iff hexited).mp hcomplete
  · intro h
    refine ⟨?_, ?_⟩
    · intro moment _
      exact executed_prefix_enqueued execute database moment
    · rintro before after rfl hbefore hexited
      have hlive : ((start database).run execute before).stopRequested = false := by
        rw [← Bool.not_eq_true, stopRequested_run]
        exact hbefore
      have hmeets := TotalRun.meets_iff_forall.mp (h hexited) before _ after rfl
      exact (enqueued_prefix_executed_iff hexited).mpr (hmeets rfl hlive)

end Promise

/-! ## The shutdown of the trading core -/

namespace Sample

/-- The destructor of `TradeIDGenerator` queues the task that saves its counter,
and the destructor of the worker comes before the loop has looked again. -/
def shutdown : List (DatabaseEvent UInt64) := [.enqueue 5, .requestStop, .loop]

end Sample

/-- The counter is lost, and the next process draws the same ids again. -/
theorem saveState_lost :
    ¬(∀ (table : TradeIDTable) (events : List (DatabaseEvent UInt64)),
      LosesNothing TradeIDTable.setCurrentTradeID table events) ∧
    ((start TradeIDTable.empty).run TradeIDTable.setCurrentTradeID
      Sample.shutdown).database.getCurrentTradeID = 0 := by
  constructor
  · intro h
    have hcomplete := (h .empty Sample.shutdown).complete [.enqueue 5] [.loop] rfl (by decide) rfl
    exact absurd hcomplete.length_le (by decide)
  · rfl

end DatabaseWorker

end BetaTrader
