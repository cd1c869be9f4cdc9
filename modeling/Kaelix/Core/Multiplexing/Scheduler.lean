import Kaelix.Lib.HashMap
import Kaelix.Lib.Queues

/-!
# The scheduler

`MLFQScheduler` of `multiplexing/scheduler.rs`, with every call run to its end before the
next one.  Times are in nanoseconds.  The statistics are left out, as nothing reads them.

A level is an index of a queue, so lookups and moves stay inside the queues by their type.
With no levels at all, adding and updating panic.  The level of a priority is computed with
floating point numbers, `(priority as f64 / 255.0 * levels as f64) as usize`; this is the
parameter `scale`.
-/

namespace Kaelix.Core.Multiplexing

open Lib Lib.Queues
open scoped List

/-- `Error` of the crate, as far as it is used here; `panic` stands for a call that
panics. -/
inductive Error where
  | resourceExhausted (message : String)
  | notFound (message : String)
  | runtime (message : String)
  | panic
  deriving DecidableEq

/-- `SchedulerConfig`; time slices and the aging threshold are in milliseconds. -/
structure SchedulerConfig where
  priorityLevels : Nat
  timeSlices : List Nat
  agingThreshold : Nat
  maxTasksPerQueue : Nat
  enableWorkStealing : Bool
  workStealThreshold : Nat
  deriving DecidableEq

def SchedulerConfig.default : SchedulerConfig :=
  { priorityLevels := 5, timeSlices := [10, 20, 40, 80, 160], agingThreshold := 100,
    maxTasksPerQueue := 10000, enableWorkStealing := true, workStealThreshold := 10 }

def millis (n : Nat) : Nat := n * 1000000

/-- A task with its times. -/
structure SchedulableTask where
  taskId : UInt64
  streamId : UInt64
  priority : UInt8
  createdAt : Nat
  lastExecuted : Option Nat
  executionCount : Nat
  remainingTimeSlice : Nat
  totalRuntime : Nat
  deriving DecidableEq

namespace SchedulableTask

def new (taskId streamId : UInt64) (priority : UInt8) (now : Nat) : SchedulableTask :=
  { taskId, streamId, priority, createdAt := now, lastExecuted := none, executionCount := 0,
    remainingTimeSlice :=
      millis (if priority ≤ 50 then 10 else if priority ≤ 150 then 20 else 40),
    totalRuntime := 0 }

variable (task : SchedulableTask)

def updateAfterExecution (executionTime now : Nat) : SchedulableTask :=
  { task with
    lastExecuted := some now
    executionCount := task.executionCount + 1
    totalRuntime := task.totalRuntime + executionTime
    remainingTimeSlice := task.remainingTimeSlice - executionTime }

def needsDemotion : Bool := task.remainingTimeSlice == 0

def resetTimeSlice (timeSlice : Nat) : SchedulableTask :=
  { task with remainingTimeSlice := timeSlice }

variable (config : SchedulerConfig)

/-- The time slice of a level is given to the task, if the configuration has one. -/
def resetFor (level : Nat) (task : SchedulableTask) : SchedulableTask :=
  match config.timeSlices[level]? with
  | some timeSlice => task.resetTimeSlice (millis timeSlice)
  | none => task

def waitTime (now : Nat) : Nat :=
  now - task.lastExecuted.getD task.createdAt

def apartFromSlice : SchedulableTask := task.resetTimeSlice 0

theorem taskId_resetFor (level : Nat) (task : SchedulableTask) :
    (task.resetFor config level).taskId = task.taskId := by
  unfold resetFor
  split <;> rfl

theorem apartFromSlice_resetFor (level : Nat) (task : SchedulableTask) :
    (task.resetFor config level).apartFromSlice = task.apartFromSlice := by
  unfold resetFor
  split <;> rfl

end SchedulableTask

/-- `MLFQScheduler` with its configuration.  The cursor is inside the queues, if there are
any. -/
structure MLFQScheduler (config : SchedulerConfig) where
  queues : Fin config.priorityLevels → List SchedulableTask
  taskLookup : HashMap UInt64 (Fin config.priorityLevels)
  currentQueue : Nat
  lastAging : Nat
  current_lt : 0 < config.priorityLevels → currentQueue < config.priorityLevels

/-- `priority_to_queue_level`; the subtraction panics where there is no level. -/
def priorityToQueueLevel (scale : UInt8 → Nat → Nat) (config : SchedulerConfig)
    (priority : UInt8) : Option (Fin config.priorityLevels) :=
  if h : 0 < config.priorityLevels then
    some ⟨min (scale priority config.priorityLevels) (config.priorityLevels - 1), by omega⟩
  else none

def levelAbove {n : Nat} (level : Fin n) : Fin n := ⟨level.val - 1, by have := level.isLt; omega⟩

namespace MLFQScheduler

variable {config : SchedulerConfig}

def new (config : SchedulerConfig) (now : Nat) : MLFQScheduler config :=
  { queues := fun _ => [], taskLookup := ∅, currentQueue := 0, lastAging := now,
    current_lt := id }

section

variable (s : MLFQScheduler config)

def pushBack (level : Fin config.priorityLevels) (task : SchedulableTask) : MLFQScheduler config :=
  { s with queues := push s.queues level task }

def setLevel (taskId : UInt64) (level : Fin config.priorityLevels) : MLFQScheduler config :=
  { s with taskLookup := s.taskLookup.insert taskId level }

/-- The task goes to the queue of its priority. -/
def addTask (scale : UInt8 → Nat → Nat) (s : MLFQScheduler config) (task : SchedulableTask) :
    Except Error Unit × MLFQScheduler config :=
  match priorityToQueueLevel scale config task.priority with
  | none => (.error .panic, s)
  | some level =>
    if (s.queues level).length ≥ config.maxTasksPerQueue then
      (.error (.resourceExhausted s!"Queue level {level} is at capacity"), s)
    else (.ok (), (s.pushBack level task).setLevel task.taskId level)

/-- The task is looked for at its level only. -/
def removeTask (taskId : UInt64) : Except Error Unit × MLFQScheduler config :=
  match s.taskLookup.lookup taskId with
  | some level =>
    (.ok (),
      { s with
        taskLookup := s.taskLookup.erase taskId
        queues := Function.update s.queues level
          ((s.queues level).filter fun task => task.taskId ≠ taskId) })
  | none => (.error (.notFound s!"Task {taskId} not found"), s)

def rota (h : 0 < config.priorityLevels) : Rota config.priorityLevels SchedulableTask :=
  { queues := s.queues, cursor := ⟨s.currentQueue, s.current_lt h⟩ }

/-- `MLFQScheduler::get_next_task`: once round the queues, from the cursor on. -/
def getNextTask : Option SchedulableTask × MLFQScheduler config :=
  if h : 0 < config.priorityLevels then
    let (task, r) := serve config.priorityLevels (s.rota h)
    (task,
      { s with
        queues := r.queues
        currentQueue := r.cursor
        current_lt := fun _ => r.cursor.isLt })
  else (none, s)

def levelOf (h : 0 < config.priorityLevels) (taskId : UInt64) : Fin config.priorityLevels :=
  (s.taskLookup.lookup taskId).getD ⟨0, h⟩

def levelBelow (level : Fin config.priorityLevels) : Fin config.priorityLevels :=
  ⟨min (level.val + 1) (config.priorityLevels - 1), by have := level.isLt; omega⟩

def updateTaskAfterExecution (task : SchedulableTask)
    (executionTime now : Nat) : Except Error Unit × MLFQScheduler config :=
  if h : 0 < config.priorityLevels then
    let task := task.updateAfterExecution executionTime now
    let level := s.levelOf h task.taskId
    if task.needsDemotion then
      let newLevel := levelBelow level
      let task := task.resetFor config newLevel
      (.ok (), (s.pushBack newLevel task).setLevel task.taskId newLevel)
    else (.ok (), s.pushBack level task)
  else (.error .panic, s)

def overdue (config : SchedulerConfig) (now : Nat) (task : SchedulableTask) : Bool :=
  decide (task.waitTime now > millis config.agingThreshold)

/-- The queues, and the tasks taken from them with the levels they go to. -/
structure Aging (config : SchedulerConfig) where
  queues : Fin config.priorityLevels → List SchedulableTask
  promotedTasks : List (SchedulableTask × Fin config.priorityLevels)

/-- The first loop of `perform_aging`, for one queue: it is emptied, and its tasks are kept
or promoted. -/
def ageQueue (now : Nat) (a : Aging config) (level : Fin config.priorityLevels) : Aging config :=
  { queues := Function.update a.queues level
      ((a.queues level).filter fun task => !overdue config now task)
    promotedTasks := a.promotedTasks ++
      ((a.queues level).filter (overdue config now)).map fun task => (task, levelAbove level) }

def promote (p : SchedulableTask × Fin config.priorityLevels) : MLFQScheduler config :=
  (s.pushBack p.2 (p.1.resetFor config p.2)).setLevel p.1.taskId p.2

/-- Tasks that have waited too long go up one level. -/
def performAging (now : Nat) : MLFQScheduler config :=
  if now - s.lastAging < millis 1000 then s
  else
    let aged := ((List.finRange config.priorityLevels).drop 1).foldl (ageQueue now)
      { queues := s.queues, promotedTasks := [] }
    aged.promotedTasks.foldl promote { s with queues := aged.queues, lastAging := now }

/-- The last task of queue `i` is moved to queue `j`: the task, and the scheduler. -/
def steal (i j : Fin config.priorityLevels) : Option SchedulableTask × MLFQScheduler config :=
  match (s.queues i).getLast? with
  | none => (none, s)
  | some task =>
    let s := { s with queues := Function.update s.queues i (s.queues i).dropLast }
    (some task, (s.pushBack j task).setLevel task.taskId j)

end

/-- The loop of `perform_work_stealing` over the overloaded queues, by the sizes that were
collected before: the tasks it moves, and the scheduler. -/
def stealLoop (queueSizes : Fin config.priorityLevels → Nat) :
    List (Fin config.priorityLevels) → MLFQScheduler config →
      List SchedulableTask × MLFQScheduler config
  | [], s => ([], s)
  | i :: is, s =>
    if queueSizes i > config.workStealThreshold then
      -- the inner loop ends at the first underloaded queue
      match (List.finRange config.priorityLevels).find? fun j =>
        decide (i ≠ j) && decide (queueSizes j < config.workStealThreshold / 2) with
      | some j =>
        let (task, s) := s.steal i j
        let (tasks, s) := stealLoop queueSizes is s
        (task.toList ++ tasks, s)
      | none => stealLoop queueSizes is s
    else stealLoop queueSizes is s

/-- `MLFQScheduler::perform_work_stealing`, with the tasks that it moves. -/
def performWorkStealing (s : MLFQScheduler config) : List SchedulableTask × MLFQScheduler config :=
  if config.enableWorkStealing then
    stealLoop (fun level => (s.queues level).length) (List.finRange config.priorityLevels) s
  else ([], s)

end MLFQScheduler

end Kaelix.Core.Multiplexing
