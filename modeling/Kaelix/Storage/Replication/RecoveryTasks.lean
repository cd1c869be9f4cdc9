import Kaelix.Cluster.Node.Address
import Kaelix.Lib.History
import Kaelix.Lib.Threads

/-!
# Recovery tasks

`RecoveryManager` of `replication/recovery.rs`, used through clones, which share its maps.

A call is a thread.  Its steps are the sections in which it holds a lock, in any order with those
of the other calls; `cancel_recovery` keeps the lock of `active_tasks` while it writes the history
and the statistics, so the steps of others that need it wait.  Each step reads the clock at most
once.  Progress, success rate and average time are left out, as nothing reads them.
-/

namespace Kaelix.Storage.Replication

open Lib Lib.Threads Cluster

inductive RecoveryStrategy where
  | immediate
  | gradual
  | manual
  | replace
  deriving DecidableEq

inductive FailureType where
  | networkFailure
  | nodeFailure
  | performanceDegradation
  | dataCorruption
  | excessiveLag
  deriving DecidableEq

/-- A task as its call has it. -/
structure RecoveryTask where
  taskId : Nat
  replicaId : NodeId
  failureType : FailureType
  strategy : RecoveryStrategy
  startedAt : Nat
  lastActivity : Nat
  errorCount : Nat
  maxErrors : Nat
  deriving DecidableEq

/-- A task of the history. -/
structure CompletedRecovery where
  taskId : Nat
  replicaId : NodeId
  failureType : FailureType
  strategy : RecoveryStrategy
  startedAt : Nat
  completedAt : Nat
  success : Bool
  entriesRecovered : Nat
  errorCount : Nat
  deriving DecidableEq

structure RecoveryStatistics where
  totalRecoveries : Nat := 0
  successfulRecoveries : Nat := 0
  failedRecoveries : Nat := 0
  activeRecoveries : Nat := 0
  deriving DecidableEq

/-- The tasks, running and done. -/
structure RecoveryManager where
  activeTasks : HashMap Nat RecoveryTask
  recoveryHistory : List CompletedRecovery
  nextTaskId : Nat
  statistics : RecoveryStatistics

def RecoveryManager.new : RecoveryManager :=
  { activeTasks := ∅, recoveryHistory := [], nextTaskId := 1, statistics := {} }

def selectRecoveryStrategy : FailureType → RecoveryStrategy
  | .networkFailure => .immediate
  | .excessiveLag => .gradual
  | .performanceDegradation => .gradual
  | .nodeFailure => .replace
  | .dataCorruption => .manual

/-- How often a strategy updates its task, after the first time. -/
def laterUpdates : RecoveryStrategy → Nat
  | .immediate => 9
  | .gradual => 19
  | .manual => 0
  | .replace => 14

/-- One hour in nanoseconds, after which a task without activity is stale. -/
def staleThreshold : Nat := 3600000000000

/-- A manager, and what has happened to its tasks: those that were removed by cancellation
or cleanup, those among them that were cancelled, and those recorded as completed, however
long ago. -/
structure RecoveryRun where
  manager : RecoveryManager
  removed : List Nat
  cancelled : List Nat
  recorded : List Nat

namespace RecoveryRun

variable (r : RecoveryRun)

def active : HashMap Nat RecoveryTask := r.manager.activeTasks

def setActive (tasks : HashMap Nat RecoveryTask) : RecoveryRun :=
  { r with manager := { r.manager with activeTasks := tasks } }

def setStatistics (statistics : RecoveryStatistics) : RecoveryRun :=
  { r with manager := { r.manager with statistics } }

/-- `record_completed_recovery`: the history keeps the last thousand. -/
def record (completed : CompletedRecovery) : RecoveryRun :=
  let history := r.manager.recoveryHistory
  { r with
    manager := { r.manager with
      recoveryHistory :=
        (if history.length ≥ 1000 then history.drop 1 else history) ++ [completed] }
    recorded := r.recorded ++ [completed.taskId] }

/-- The task that the check of `start_recovery` finds for a replica. -/
def findReplica (replicaId : NodeId) : Option RecoveryTask :=
  r.active.values.find? fun task => task.replicaId = replicaId

def staleTasks (now : Nat) : List Nat :=
  r.active.keys.filter fun taskId =>
    (r.active.lookup taskId).any fun task => now - task.lastActivity > staleThreshold

end RecoveryRun

def RecoveryTask.completed (task : RecoveryTask) (now : Nat) (success : Bool) :
    CompletedRecovery :=
  { taskId := task.taskId, replicaId := task.replicaId, failureType := task.failureType,
    strategy := task.strategy, startedAt := task.startedAt, completedAt := now, success,
    entriesRecovered := if success then 1000 else 0, errorCount := task.errorCount }

inductive RecoveryResult where
  | started (taskId : Nat)
  | cancelled
  | cleaned (removedCount : Nat)
  deriving DecidableEq

/-- Where a call stands, before its next step.  The first one of each kind of call is its
beginning. -/
inductive Point where
  /-- `start_recovery`, before it looks for a task of the replica. -/
  | startRecovery (replicaId : NodeId) (failureType : FailureType)
  | takeId (replicaId : NodeId) (failureType : FailureType)
  | insertTask (task : RecoveryTask)
  | countStart (task : RecoveryTask)
  /-- `execute_recovery`, with an update to make and some more behind it. -/
  | execute (task : RecoveryTask) (later : Nat)
  | completeRemove (task : RecoveryTask)
  | completeRecord (task : RecoveryTask)
  | completeCount (task : RecoveryTask)
  | cancelRecovery (taskId : Nat)
  | cancelRecord (task : RecoveryTask)
  | cancelCount (task : RecoveryTask)
  | cleanupStaleTasks
  | returned (result : RecoveryResult)
  deriving DecidableEq

namespace Point

def takesLock : Point → Bool
  | startRecovery .. | insertTask _ | execute .. | completeRemove _ | cancelRecovery _
  | cleanupStaleTasks => true
  | _ => false

/-- The call holds this lock from an earlier step. -/
def holdsLock : Point → Bool
  | cancelRecord _ | cancelCount _ => true
  | _ => false

/-- Where `execute_recovery` is after an update: before the next one, or at its end. -/
def afterUpdate (task : RecoveryTask) (later : Nat) : Point :=
  if later = 0 then completeRemove task else execute task (later - 1)

/-- The next step of a call. -/
def advance (now : Nat) : Point → RecoveryRun → Point × RecoveryRun
  | startRecovery replicaId failureType, r =>
    match r.findReplica replicaId with
    | some task => (returned (.started task.taskId), r)
    | none => (takeId replicaId failureType, r)
  | takeId replicaId failureType, r =>
    (insertTask
      { taskId := r.manager.nextTaskId, replicaId, failureType,
        strategy := selectRecoveryStrategy failureType, startedAt := now,
        lastActivity := now, errorCount := 0, maxErrors := 5 },
      { r with manager := { r.manager with nextTaskId := r.manager.nextTaskId + 1 } })
  | insertTask task, r =>
    (countStart task, r.setActive (r.active.insert task.taskId task))
  | countStart task, r =>
    let statistics := r.manager.statistics
    (execute task (laterUpdates task.strategy),
      r.setStatistics { statistics with
        totalRecoveries := statistics.totalRecoveries + 1
        activeRecoveries := statistics.activeRecoveries + 1 })
  | execute task later, r =>
    let task := { task with lastActivity := now }
    (afterUpdate task later, r.setActive (r.active.insert task.taskId task))
  | completeRemove task, r =>
    (completeRecord task, r.setActive (r.active.erase task.taskId))
  | completeRecord task, r => (completeCount task, r.record (task.completed now true))
  | completeCount task, r =>
    let statistics := r.manager.statistics
    (returned (.started task.taskId),
      r.setStatistics { statistics with
        activeRecoveries := statistics.activeRecoveries - 1
        successfulRecoveries := statistics.successfulRecoveries + 1 })
  | cancelRecovery taskId, r =>
    match r.active.lookup taskId with
    | some task =>
      (cancelRecord task,
        { r.setActive (r.active.erase taskId) with
          removed := r.removed ++ [taskId]
          cancelled := r.cancelled ++ [taskId] })
    | none => (returned .cancelled, r)
  | cancelRecord task, r => (cancelCount task, r.record (task.completed now false))
  | cancelCount _, r =>
    let statistics := r.manager.statistics
    (returned .cancelled,
      r.setStatistics { statistics with
        activeRecoveries := statistics.activeRecoveries - 1
        failedRecoveries := statistics.failedRecoveries + 1 })
  | cleanupStaleTasks, r =>
    let stale := r.staleTasks now
    (returned (.cleaned stale.length),
      { r.setActive (HashMap.eraseAll stale r.active) with removed := r.removed ++ stale })
  | returned result, r => (returned result, r)

/-- The call does not wait for the lock. -/
def ready (points : List Point) (p : Point) : Bool := !(p.takesLock && points.any holdsLock)

end Point

/-- The manager with its calls in flight. -/
abbrev RecoverySystem := Concurrent RecoveryRun Point

/-- The calls a caller makes. -/
inductive RecoveryCall where
  | startRecovery (replicaId : NodeId) (failureType : FailureType)
  | cancelRecovery (taskId : Nat)
  | cleanupStaleTasks
  deriving DecidableEq

def RecoveryCall.entry : RecoveryCall → Point
  | startRecovery replicaId failureType => .startRecovery replicaId failureType
  | cancelRecovery taskId => .cancelRecovery taskId
  | cleanupStaleTasks => .cleanupStaleTasks

namespace RecoverySystem

def new (calls : List RecoveryCall) : RecoverySystem :=
  { shared := { manager := .new, removed := [], cancelled := [], recorded := [] }
    threads := calls.map RecoveryCall.entry }

def step (s : RecoverySystem) (e : Nat × Nat) : RecoverySystem :=
  Threads.step Point.ready Point.advance s e

theorem step_cases (s : RecoverySystem) (e : Nat × Nat) :
    (s.step e = s ∧ ∀ p, s.threads[e.1]? = some p → Point.ready s.threads p = false) ∨
      ∃ p, s.threads[e.1]? = some p ∧ Point.ready s.threads p = true ∧
        s.step e = { shared := (p.advance e.2 s.shared).2
                     threads := s.threads.set e.1 (p.advance e.2 s.shared).1 } :=
  Threads.step_cases s e

end RecoverySystem

/-! ### What a call has to do with a task -/

variable {p : Point}

namespace Point

/-- The task of the call, from its identifier on. -/
def ownTask : Point → Option RecoveryTask
  | insertTask task | countStart task | execute task _ | completeRemove task
  | completeRecord task | completeCount task => some task
  | _ => none

/-- The task that the call has put into the active tasks and not yet removed. -/
def activeTask : Point → Option RecoveryTask
  | countStart task | execute task _ | completeRemove task => some task
  | _ => none

/-- The records that the call still owes. -/
def debt (taskId : Nat) : Point → Nat
  | insertTask task | countStart task | execute task _ | completeRemove task
  | completeRecord task | cancelRecord task => if task.taskId = taskId then 1 else 0
  | _ => 0

def inFlight : Point → Nat
  | execute .. | completeRemove _ | completeRecord _ | completeCount _ => 1
  | _ => 0

def cancelling : Point → Nat
  | cancelRecord _ | cancelCount _ => 1
  | _ => 0

theorem ownTask_of_activeTask {task : RecoveryTask} (h : p.activeTask = some task) :
    p.ownTask = some task := by
  cases p <;> first | exact h | cases h

def workingTask (p : Point) : Option Nat := p.activeTask.map RecoveryTask.taskId

/-- One if the call still has to remove the task from the active tasks. -/
def holds (taskId : Nat) (p : Point) : Nat := if p.workingTask = some taskId then 1 else 0

section

variable (task : RecoveryTask) (later : Nat)

theorem apply_afterUpdate {α : Type} {f : Point → α} {x : α}
    (hremove : f (completeRemove task) = x) (hexecute : f (execute task (later - 1)) = x) :
    f (afterUpdate task later) = x := by
  rw [afterUpdate]
  split
  · exact hremove
  · exact hexecute

@[simp]
theorem ownTask_afterUpdate : (afterUpdate task later).ownTask = some task :=
  apply_afterUpdate task later rfl rfl

@[simp]
theorem activeTask_afterUpdate : (afterUpdate task later).activeTask = some task :=
  apply_afterUpdate task later rfl rfl

@[simp]
theorem debt_afterUpdate (taskId : Nat) :
    (afterUpdate task later).debt taskId = if task.taskId = taskId then 1 else 0 :=
  apply_afterUpdate task later rfl rfl

@[simp]
theorem inFlight_afterUpdate : (afterUpdate task later).inFlight = 1 :=
  apply_afterUpdate task later rfl rfl

@[simp]
theorem cancelling_afterUpdate : (afterUpdate task later).cancelling = 0 :=
  apply_afterUpdate task later rfl rfl

end

end Point

variable {taskId : Nat}

namespace RecoveryRun

/-- The identifier was given out. -/
def Taken (r : RecoveryRun) (taskId : Nat) : Prop := 0 < taskId ∧ taskId < r.manager.nextTaskId

instance (r : RecoveryRun) (taskId : Nat) : Decidable (r.Taken taskId) :=
  inferInstanceAs (Decidable (_ ∧ _))

variable {r r' : RecoveryRun}

theorem taken_succ (hpos : 0 < r.manager.nextTaskId)
    (hnext : r'.manager.nextTaskId = r.manager.nextTaskId + 1) (taskId : Nat) :
    (if r'.Taken taskId then 1 else 0) =
      (if r.Taken taskId then 1 else 0) + if r.manager.nextTaskId = taskId then 1 else 0 := by
  have hiff : r'.Taken taskId ↔ r.Taken taskId ∨ r.manager.nextTaskId = taskId := by
    rw [Taken, Taken, hnext]
    omega
  simp only [hiff]
  by_cases htaken : r.Taken taskId
  · have hne : r.manager.nextTaskId ≠ taskId := (Nat.ne_of_lt htaken.2).symm
    simp [htaken, hne]
  · simp [htaken]

/-- What holds of the shared state. -/
structure Sound (r : RecoveryRun) : Prop where
  started : 0 < r.manager.nextTaskId
  keys : ∀ taskId task, r.active.lookup taskId = some task →
    task.taskId = taskId ∧ r.Taken taskId
  removed : ∀ taskId ∈ r.removed, r.Taken taskId
  cancelled : ∀ taskId ∈ r.cancelled, taskId ∈ r.removed

/-- What holds of the shared state and a call: its task has an identifier; before it is
put into the active tasks it never was there, and afterwards it is, unless it was removed
by cancellation or cleanup. -/
structure Follows (r : RecoveryRun) (p : Point) : Prop where
  own : ∀ task, p.ownTask = some task → r.Taken task.taskId
  fresh : ∀ task, p = .insertTask task →
    r.active.lookup task.taskId = none ∧ task.taskId ∉ r.removed
  present : ∀ task, p.activeTask = some task →
    (∃ task', r.active.lookup task.taskId = some task' ∧ task'.replicaId = task.replicaId) ∨
      task.taskId ∈ r.removed

/-- What a step of a call with this task leaves to the other calls: of other tasks it
changes nothing, except that it removes some by cancellation or cleanup. -/
structure Guarantees (own : Option Nat) (r r' : RecoveryRun) : Prop where
  next : r.manager.nextTaskId ≤ r'.manager.nextTaskId
  others : ∀ taskId, own ≠ some taskId → r'.active.lookup taskId = r.active.lookup taskId ∨
    (r'.active.lookup taskId = none ∧ taskId ∈ r'.removed)
  kept : ∀ taskId ∈ r.removed, taskId ∈ r'.removed
  added : ∀ taskId ∈ r'.removed, taskId ∈ r.removed ∨ r.active.lookup taskId ≠ none

theorem Guarantees.taken {own : Option Nat} (h : Guarantees own r r') (htaken : r.Taken taskId) :
    r'.Taken taskId :=
  ⟨htaken.1, Nat.lt_of_lt_of_le htaken.2 h.next⟩

theorem Guarantees.of_eq {own : Option Nat}
    (hact : r'.active = r.active) (hrem : r'.removed = r.removed)
    (hnext : r.manager.nextTaskId ≤ r'.manager.nextTaskId) : Guarantees own r r' where
  next := hnext
  others taskId _ := .inl (by rw [hact])
  kept taskId h := by rwa [hrem]
  added taskId h := .inl (by rwa [← hrem])

theorem Guarantees.own (hget : ∀ k, k ≠ taskId → r'.active.lookup k = r.active.lookup k)
    (hrem : r'.removed = r.removed) (hnext : r.manager.nextTaskId ≤ r'.manager.nextTaskId) :
    Guarantees (some taskId) r r' where
  next := hnext
  others k hk := .inl (hget k fun heq => hk (congrArg some heq.symm))
  kept k hk := by rwa [hrem]
  added k hk := .inl (by rwa [← hrem])

theorem Guarantees.remove {own : Option Nat} (gone : List Nat)
    (hget : ∀ k, r'.active.lookup k = if k ∈ gone then none else r.active.lookup k)
    (hrem : r'.removed = r.removed ++ gone) (hgone : ∀ k ∈ gone, r.active.lookup k ≠ none)
    (hnext : r.manager.nextTaskId ≤ r'.manager.nextTaskId) : Guarantees own r r' where
  next := hnext
  others k _ := by
    by_cases hk : k ∈ gone
    · refine .inr ⟨?_, ?_⟩
      · rw [hget, if_pos hk]
      · rw [hrem]
        exact List.mem_append_right _ hk
    · rw [hget, if_neg hk]
      exact .inl rfl
  kept k hk := by
    rw [hrem]
    exact List.mem_append_left _ hk
  added k hk := by
    rw [hrem] at hk
    exact (List.mem_append.mp hk).imp_right (hgone k)

theorem Follows.rely {own : Option Nat} (h : Follows r p) (hguar : Guarantees own r r')
    (hne : ∀ task, p.ownTask = some task → own ≠ some task.taskId) : Follows r' p where
  own task hown := hguar.taken (h.own task hown)
  fresh task hp := by
    obtain ⟨hnone, hnot⟩ := h.fresh task hp
    have hown : p.ownTask = some task := by
      rw [hp]
      rfl
    refine ⟨?_, fun hrem => ?_⟩
    · rcases hguar.others _ (hne task hown) with hsame | hgone
      · rw [hsame, hnone]
      · exact hgone.1
    · rcases hguar.added _ hrem with hold | hact
      · exact hnot hold
      · exact hact hnone
  present task hact := by
    have hown := Point.ownTask_of_activeTask hact
    rcases hguar.others _ (hne task hown) with hsame | hgone
    · rw [hsame]
      exact (h.present task hact).imp_right (hguar.kept _)
    · exact .inr hgone.2

end RecoveryRun

/-! ### The steps of a call -/

variable {k : Nat}

namespace Point

open RecoveryRun

variable {r : RecoveryRun} {p : Point}

theorem lookup_erase (r : RecoveryRun) (taskId k : Nat) :
    (r.active.erase taskId).lookup k =
      if k ∈ [taskId] then none else r.active.lookup k := by
  simp only [List.mem_singleton]
  exact HashMap.lookup_erase_eq r.active taskId k

variable (now : Nat)

private theorem lookup_staleTasks (hk : k ∈ r.staleTasks now) : r.active.lookup k ≠ none
    := by
  have hkey := (List.mem_filter.mp hk).1
  intro hnone
  exact AList.lookup_eq_none.mp hnone hkey

/-- What a step of a call, from `p` to `p'`, does to the active tasks. -/
inductive Change (p : Point) (r : RecoveryRun) (p' : Point) (r' : RecoveryRun) : Prop
  | same (hact : r'.active = r.active) (hrem : r'.removed = r.removed)
      (hwork : p'.workingTask = p.workingTask)
  /-- The call writes its own copy of its task. -/
  | write (own task : RecoveryTask) (hown : p.ownTask = some own)
      (htid : own.taskId = task.taskId) (hrepl : own.replicaId = task.replicaId)
      (hact : r'.active = r.active.insert task.taskId task)
      (hrem : r'.removed = r.removed) (hwork : p'.workingTask = some task.taskId)
  /-- The call has finished its task. -/
  | finish (task : RecoveryTask) (hown : p.activeTask = some task)
      (hact : r'.active = r.active.erase task.taskId)
      (hrem : r'.removed = r.removed)
  /-- The call removes tasks by cancellation or cleanup. -/
  | remove (gone : List Nat) (hidle : p.workingTask = none)
      (hget : ∀ k, r'.active.lookup k = if k ∈ gone then none else r.active.lookup k)
      (hrem : r'.removed = r.removed ++ gone)
      (hgone : ∀ k ∈ gone, r.active.lookup k ≠ none)

theorem change (p : Point) (r : RecoveryRun) :
    Change p r (p.advance now r).1 (p.advance now r).2 := by
  cases p with
  | startRecovery =>
    rw [advance]
    split <;> exact .same rfl rfl rfl
  | insertTask task => exact .write task task rfl rfl rfl rfl rfl rfl
  | execute task later =>
    have hwork := activeTask_afterUpdate { task with lastActivity := now } later
    exact .write task { task with lastActivity := now } rfl rfl rfl rfl rfl
      (congrArg (Option.map RecoveryTask.taskId) hwork)
  | completeRemove task => exact .finish task rfl rfl rfl
  | cancelRecovery taskId =>
    rw [advance]
    split
    · next task htask =>
        refine .remove [taskId] rfl (lookup_erase r taskId) rfl (fun k hk => ?_)
        rw [List.mem_singleton.mp hk, htask]
        exact Option.some_ne_none task
    · exact .same rfl rfl rfl
  | cleanupStaleTasks =>
    exact .remove _ rfl (HashMap.lookup_eraseAll _ r.active) rfl
      fun k hk => lookup_staleTasks now hk
  | _ => exact .same rfl rfl rfl

private theorem next_advance (p : Point) (r : RecoveryRun) :
    r.manager.nextTaskId ≤ (p.advance now r).2.manager.nextTaskId := by
  cases p with
  | startRecovery | cancelRecovery =>
    rw [advance]
    split <;> exact Nat.le_refl _
  | takeId => exact Nat.le_succ _
  | _ => exact Nat.le_refl _

theorem advance_guarantees (p : Point) (r : RecoveryRun) :
    Guarantees (p.ownTask.map RecoveryTask.taskId) r (p.advance now r).2 := by
  have hnext := next_advance now p r
  cases change now p r with
  | same hact hrem => exact .of_eq hact hrem hnext
  | write own task hown htid _ hact hrem =>
    rw [hown, Option.map_some, htid]
    refine .own (fun k hk => ?_) hrem hnext
    rw [hact, HashMap.lookup_insert_eq, if_neg hk]
  | finish task hown hact hrem =>
    rw [ownTask_of_activeTask hown, Option.map_some]
    refine .own (fun k hk => ?_) hrem hnext
    rw [hact, HashMap.lookup_erase_eq, if_neg hk]
  | remove gone _ hget hrem hgone => exact .remove gone hget hrem hgone hnext

variable {task : RecoveryTask}

private theorem lookup_advance {now : Nat} (h : (p.advance now r).2.active.lookup k = some task) :
    r.active.lookup k = some task ∨
      (task.taskId = k ∧ ∃ own, p.ownTask = some own ∧ own.taskId = k) := by
  cases change now p r with
  | same hact =>
    rw [hact] at h
    exact .inl h
  | write own written hown htid _ hact =>
    rw [hact, HashMap.lookup_insert_eq] at h
    split at h
    · next hk =>
        obtain rfl := Option.some.inj h
        exact .inr ⟨hk.symm, own, hown, htid.trans hk.symm⟩
    · exact .inl h
  | finish own _ hact =>
    rw [hact, HashMap.lookup_erase_eq] at h
    split at h
    · cases h
    · exact .inl h
  | remove gone _ hget =>
    rw [hget] at h
    split at h
    · cases h
    · exact .inl h

theorem advance_cancelRecovery (h : r.active.lookup taskId = some task) (now : Nat) :
    (cancelRecovery taskId).advance now r = (.cancelRecord task,
      { r.setActive (r.active.erase taskId) with
        removed := r.removed ++ [taskId]
        cancelled := r.cancelled ++ [taskId] }) := by
  rw [advance, h]

theorem cancelled_advance (p : Point) (r : RecoveryRun) :
    (p.advance now r).2.cancelled = r.cancelled ∨
      ∃ taskId task, p = .cancelRecovery taskId ∧ r.active.lookup taskId = some task ∧
        p.advance now r = (.cancelRecord task,
          { r.setActive (r.active.erase taskId) with
            removed := r.removed ++ [taskId]
            cancelled := r.cancelled ++ [taskId] }) := by
  cases p with
  | startRecovery =>
    rw [advance]
    split <;> exact .inl rfl
  | cancelRecovery taskId =>
    cases hget : r.active.lookup taskId with
    | none =>
      left
      rw [advance, hget]
    | some task =>
      exact .inr ⟨taskId, task, rfl, hget, advance_cancelRecovery hget now⟩
  | _ => exact .inl rfl

theorem sound_advance (hsound : r.Sound) (hfol : r.Follows p) (now : Nat) :
    (p.advance now r).2.Sound := by
  have hguar := advance_guarantees now p r
  refine ⟨?_, ?_, ?_, ?_⟩
  · exact Nat.lt_of_lt_of_le hsound.started hguar.next
  · intro k task hk
    rcases lookup_advance hk with hold | ⟨hkey, own, hown, rfl⟩
    · exact ⟨(hsound.keys k task hold).1, hguar.taken (hsound.keys k task hold).2⟩
    · exact ⟨hkey, hguar.taken (hfol.own own hown)⟩
  · intro k hk
    apply hguar.taken
    rcases hguar.added k hk with hold | hact
    · exact hsound.removed k hold
    · obtain ⟨task, htask⟩ := Option.ne_none_iff_exists'.mp hact
      exact (hsound.keys k task htask).2
  · intro k hk
    rcases cancelled_advance now p r with hsame | ⟨taskId, task, -, -, hstep⟩
    · rw [hsame] at hk
      exact hguar.kept k (hsound.cancelled k hk)
    · rw [hstep] at hk ⊢
      rcases List.mem_append.mp hk with hold | hnew
      · exact List.mem_append_left _ (hsound.cancelled k hold)
      · exact List.mem_append_right _ hnew

theorem follows_of_none (h : p.ownTask = none) : r.Follows p where
  own task hown := by
    rw [h] at hown
    cases hown
  fresh task hp := by
    subst hp
    cases h
  present task hact := by
    have hown := ownTask_of_activeTask hact
    rw [h] at hown
    cases hown

private theorem follows_insert (hp : p.activeTask = some task) (htaken : r.Taken task.taskId) :
    (r.setActive (r.active.insert task.taskId task)).Follows p := by
  have hown : p.ownTask = some task := ownTask_of_activeTask hp
  refine ⟨fun t ht => ?_, fun t ht => ?_, fun t ht => ?_⟩
  · rw [hown] at ht
    obtain rfl := Option.some.inj ht
    exact htaken
  · subst ht
    cases hp
  · rw [hp] at ht
    obtain rfl := Option.some.inj ht
    exact .inl ⟨task, AList.lookup_insert _, rfl⟩

private theorem follows_of_inactive (htaken : r.Taken task.taskId) (hown : p.ownTask = some task)
    (hact : p.activeTask = none) (hins : ∀ t, p ≠ .insertTask t) : r.Follows p where
  own t ht := by
    rw [hown] at ht
    obtain rfl := Option.some.inj ht
    exact htaken
  fresh t ht := absurd ht (hins t)
  present t ht := by
    rw [hact] at ht
    cases ht

theorem follows_advance (hsound : r.Sound) (hfol : r.Follows p) (now : Nat) :
    (p.advance now r).2.Follows (p.advance now r).1 := by
  cases p with
  | startRecovery | cancelRecovery =>
    rw [advance]
    split <;> exact follows_of_none rfl
  | takeId =>
    refine ⟨fun t ht => ?_, fun t ht => ?_, fun t ht => ?_⟩
    · obtain rfl := Option.some.inj ht
      exact ⟨hsound.started, Nat.lt_succ_self _⟩
    · obtain rfl := Point.insertTask.inj ht
      -- the identifiers in use are below the one that was taken
      have hbelow : ¬ r.Taken r.manager.nextTaskId := fun h => Nat.lt_irrefl _ h.2
      refine ⟨?_, fun hrem => hbelow (hsound.removed _ hrem)⟩
      apply Option.eq_none_iff_forall_ne_some.mpr
      intro task htask
      exact hbelow (hsound.keys _ task htask).2
    · cases ht
  | insertTask task => exact follows_insert rfl (hfol.own task rfl)
  | countStart =>
    exact ⟨hfol.own, fun t ht => (by cases ht), hfol.present⟩
  | execute task later =>
    exact follows_insert (activeTask_afterUpdate _ later) (hfol.own task rfl)
  | completeRemove task | completeRecord task =>
    exact follows_of_inactive (hfol.own task rfl) rfl rfl fun t ht => by cases ht
  | _ => exact follows_of_none rfl

private theorem ownTask_advance {now : Nat} (h : (p.advance now r).1.ownTask = some task) :
    p.ownTask.map RecoveryTask.taskId = some task.taskId ∨
      task.taskId = r.manager.nextTaskId := by
  cases p with
  | startRecovery | cancelRecovery =>
    rw [advance] at h
    split at h <;> cases h
  | takeId =>
    obtain rfl := Option.some.inj h
    exact .inr rfl
  | execute own later =>
    obtain rfl := Option.some.inj ((ownTask_afterUpdate _ later).symm.trans h)
    exact .inl rfl
  | insertTask | countStart | completeRemove | completeRecord =>
    exact .inl (congrArg (Option.map RecoveryTask.taskId) h)
  | _ => cases h

/-! What a step does to the books: the call's share changes with what is written. -/

private theorem holds_advance {now : Nat} (h : (p.advance now r).2.active.lookup k ≠ none) :
    (r.active.lookup k ≠ none ∧ p.holds k ≤ (p.advance now r).1.holds k) ∨
      (p.advance now r).1.holds k = 1 := by
  rw [holds, holds]
  cases change now p r with
  | same hact _ hwork =>
    rw [hact] at h
    exact .inl ⟨h, by rw [hwork]⟩
  | write own task hown htid _ hact _ hwork =>
    by_cases hk : k = task.taskId
    · right
      rw [hwork, hk, if_pos rfl]
    · rw [hact, HashMap.lookup_insert_eq, if_neg hk] at h
      have hnot : p.workingTask ≠ some k := by
        intro hsome
        obtain ⟨t, ht, rfl⟩ := Option.map_eq_some_iff.mp hsome
        rw [ownTask_of_activeTask ht] at hown
        exact hk (Option.some.inj hown ▸ htid)
      rw [if_neg hnot]
      exact .inl ⟨h, Nat.zero_le _⟩
  | finish task hown hact =>
    rw [hact, HashMap.lookup_erase_eq] at h
    have hk : k ≠ task.taskId := fun hk => h (if_pos hk)
    have hnot : p.workingTask ≠ some k := by
      rw [workingTask, hown]
      exact fun hsome => hk (Option.some.inj hsome).symm
    rw [if_neg hk] at h
    rw [if_neg hnot]
    exact .inl ⟨h, Nat.zero_le _⟩
  | remove gone hidle hget =>
    refine .inl ⟨fun hnone => h ?_, ?_⟩
    · rw [hget, hnone, ite_self]
    · rw [hidle]
      exact Nat.zero_le _

private theorem debt_advance (hsound : r.Sound) (now k : Nat) :
    (p.advance now r).2.recorded.count k + (p.advance now r).1.debt k +
        ((if r.Taken k then 1 else 0) + r.cancelled.count k) =
      r.recorded.count k + p.debt k +
        ((if (p.advance now r).2.Taken k then 1 else 0) +
          (p.advance now r).2.cancelled.count k) := by
  have hrecord (task : RecoveryTask) : (r.recorded ++ [task.taskId]).count k =
      r.recorded.count k + if task.taskId = k then 1 else 0 := by
    rw [List.count_append, List.count_singleton]
    simp only [beq_iff_eq]
  cases p with
  | startRecovery =>
    rw [advance]
    split <;> rfl
  | takeId replicaId failureType =>
    -- the identifier is given, and the call owes a record for it
    have hnext : ((takeId replicaId failureType).advance now r).2.manager.nextTaskId =
        r.manager.nextTaskId + 1 := rfl
    rw [taken_succ hsound.started hnext k]
    change r.recorded.count k + (if r.manager.nextTaskId = k then 1 else 0) + _ =
      r.recorded.count k + 0 + (_ + r.cancelled.count k)
    omega
  | execute task later =>
    have hdebt := debt_afterUpdate { task with lastActivity := now } later k
    exact congrArg (r.recorded.count k + · + _) hdebt
  | completeRecord task | cancelRecord task => exact congrArg (· + _) (hrecord task)
  | cancelRecovery taskId =>
    rw [advance]
    split
    · next task htask =>
        have hcnt : (r.cancelled ++ [taskId]).count k =
            r.cancelled.count k + if task.taskId = k then 1 else 0 := by
          rw [(hsound.keys taskId task htask).1, List.count_append, List.count_singleton]
          simp only [beq_iff_eq]
        change r.recorded.count k + (if task.taskId = k then 1 else 0) +
          ((if r.Taken k then 1 else 0) + r.cancelled.count k) =
            r.recorded.count k + 0 +
              ((if r.Taken k then 1 else 0) + (r.cancelled ++ [taskId]).count k)
        rw [hcnt]
        omega
    · rfl
  | _ => rfl

private theorem inFlight_advance (p : Point) (r : RecoveryRun) :
    (p.advance now r).2.manager.statistics.totalRecoveries +
        (r.manager.statistics.successfulRecoveries + p.inFlight) =
      r.manager.statistics.totalRecoveries +
        ((p.advance now r).2.manager.statistics.successfulRecoveries +
          (p.advance now r).1.inFlight) := by
  cases p with
  | startRecovery | cancelRecovery =>
    rw [advance]
    split <;> rfl
  | countStart =>
    simp only [advance, setStatistics, inFlight]
    omega
  | execute =>
    simp only [advance, RecoveryRun.setActive, inFlight_afterUpdate]
    rfl
  | _ => rfl

private theorem cancelling_advance (p : Point) (r : RecoveryRun) :
    (p.advance now r).2.manager.statistics.failedRecoveries +
        (p.advance now r).1.cancelling + r.cancelled.length =
      r.manager.statistics.failedRecoveries + p.cancelling +
        (p.advance now r).2.cancelled.length := by
  cases p with
  | startRecovery =>
    rw [advance]
    split <;> rfl
  | cancelRecovery =>
    rw [advance]
    split
    · simp only [RecoveryRun.setActive, cancelling, List.length_append, List.length_singleton]
      omega
    · rfl
  | execute =>
    simp only [advance, RecoveryRun.setActive, cancelling_afterUpdate]
    rfl
  | _ => rfl

end Point

/-! ### All calls -/

open RecoveryRun

/-- What holds in every state, in whatever order the calls take their steps: every active
task has a call that holds it, every task has a record for each time that it was started or
cancelled, made or owed by some call, and so have the statistics. -/
structure Accounts (s : RecoverySystem) : Prop where
  sound : s.shared.Sound
  follows : Each Follows s
  distinct : Distinct (fun p => p.ownTask.map RecoveryTask.taskId) s.threads
  owner : ∀ taskId, s.shared.active.lookup taskId ≠ none →
    1 ≤ total (Point.holds taskId) s.threads
  records : ∀ taskId, s.shared.recorded.count taskId + total (Point.debt taskId) s.threads =
    (if s.shared.Taken taskId then 1 else 0) + s.shared.cancelled.count taskId
  starts : s.shared.manager.statistics.totalRecoveries =
    s.shared.manager.statistics.successfulRecoveries + total Point.inFlight s.threads
  failures : s.shared.manager.statistics.failedRecoveries +
    total Point.cancelling s.threads = s.shared.cancelled.length

namespace Accounts

theorem new (calls : List RecoveryCall) : Accounts (.new calls) := by
  have hent : ∀ p ∈ (RecoverySystem.new calls).threads, p.ownTask = none ∧
      (∀ taskId, p.debt taskId = 0) ∧ p.inFlight = 0 ∧ p.cancelling = 0 := by
    intro p hp
    obtain ⟨call, -, rfl⟩ := List.mem_map.mp hp
    cases call <;> exact ⟨rfl, fun _ => rfl, rfl, rfl⟩
  refine ⟨⟨Nat.one_pos, ?_, ?_, ?_⟩, ?_, ?_, ?_, ?_, ?_, ?_⟩
  · intro taskId task h
    cases h
  · intro taskId h
    cases h
  · intro taskId h
    cases h
  · intro i p hp
    exact Point.follows_of_none (hent p (List.mem_of_getElem? hp)).1
  · intro i j p q k hp _ hk _
    obtain ⟨task, htask, -⟩ := Option.map_eq_some_iff.mp hk
    rw [(hent p (List.mem_of_getElem? hp)).1] at htask
    cases htask
  · intro taskId h
    exact absurd rfl h
  · intro taskId
    have hfree : ¬ (RecoverySystem.new calls).shared.Taken taskId := by
      rintro ⟨hpos, hlt⟩
      exact absurd hlt (Nat.not_lt.mpr hpos)
    rw [total_eq_zero fun p hp => (hent p hp).2.1 taskId, if_neg hfree]
    rfl
  · rw [total_eq_zero fun p hp => (hent p hp).2.2.1]
    rfl
  · rw [total_eq_zero fun p hp => (hent p hp).2.2.2]
    rfl

theorem step {s : RecoverySystem} (h : Accounts s) (e : Nat × Nat) : Accounts (s.step e) := by
  rcases s.step_cases e with ⟨hsame, -⟩ | ⟨p, hp, -, hmove⟩
  · rw [hsame]
    exact h
  have hfol : s.shared.Follows p := h.follows e.1 p hp
  rw [hmove]
  refine ⟨?_, ?_, ?_, ?_, ?_, ?_, ?_⟩
  · exact Point.sound_advance h.sound hfol e.2
  · apply Each.set h.follows (Point.advance_guarantees e.2 p s.shared)
    · exact Point.follows_advance h.sound hfol e.2
    · intro j q hj hq hfollowsq hguar
      apply hfollowsq.rely hguar
      intro task htask hsame
      exact hj (h.distinct j e.1 q p task.taskId hq hp
        (congrArg (Option.map RecoveryTask.taskId) htask) hsame)
  · apply Distinct.set h.distinct
    intro k hk j q hj hq hkq
    obtain ⟨task, htask, rfl⟩ := Option.map_eq_some_iff.mp hk
    obtain ⟨other, hoth, hsame⟩ := Option.map_eq_some_iff.mp hkq
    rcases Point.ownTask_advance htask with hown | hnew
    · exact hj (h.distinct j e.1 q p task.taskId hq hp hkq hown)
    · have htaken := ((h.follows j q hq).own other hoth).2
      omega
  · intro k hk
    have hset := total_set (Point.holds k) hp (Point.advance e.2 p s.shared).1
    dsimp only
    rcases Point.holds_advance hk with ⟨hact, hle⟩ | hone
    · have howner := h.owner k hact
      omega
    · have hle := le_total (Point.holds k) hp
      omega
  · intro k
    have hset := total_set (Point.debt k) hp (Point.advance e.2 p s.shared).1
    have hrec := h.records k
    have hbooks := Point.debt_advance (p := p) h.sound e.2 k
    dsimp only
    omega
  · have hset := total_set Point.inFlight hp (Point.advance e.2 p s.shared).1
    have hstarts := h.starts
    have hbooks := Point.inFlight_advance e.2 p s.shared
    dsimp only
    omega
  · have hset := total_set Point.cancelling hp (Point.advance e.2 p s.shared).1
    have hfailures := h.failures
    have hbooks := Point.cancelling_advance e.2 p s.shared
    dsimp only
    omega

end Accounts

/-! ### One life -/

/-- What is asked of the shared state: a task that was removed by cancellation or cleanup is
not active, no task is recorded twice, and a replica has one active task at most. -/
structure Clean (r : RecoveryRun) : Prop where
  removedGone : ∀ taskId ∈ r.removed, r.active.lookup taskId = none
  recordedOnce : r.recorded.Nodup
  onePerReplica : ∀ k k' task task', r.active.lookup k = some task →
    r.active.lookup k' = some task' → task.replicaId = task'.replicaId → k = k'

/-- The call is not between a change of the active tasks and the statistics that go with
it. -/
def Point.atRest : Point → Bool
  | .countStart _ | .completeRecord _ | .completeCount _ | .cancelRecord _
  | .cancelCount _ => false
  | _ => true

/-- The moment is between operations: all calls are at rest. -/
def Between (s : RecoverySystem) : Prop := ∀ p ∈ s.threads, p.atRest = true

/-- The statistics agree with the number of active tasks. -/
def Balanced (r : RecoveryRun) : Prop :=
  r.manager.statistics.totalRecoveries = r.manager.statistics.successfulRecoveries +
    r.manager.statistics.failedRecoveries + r.active.keys.length

/-- No task comes back, and the statistics agree. -/
structure OneLife (s : RecoverySystem) : Prop where
  clean : Clean s.shared
  balance : Between s → Balanced s.shared

/-- The tasks that calls are at work on. -/
def working (s : RecoverySystem) : List Nat := s.threads.filterMap Point.workingTask

/-- A call is at work on a task that cleanup has removed. -/
def Swept (s : RecoverySystem) : Prop :=
  ∃ k ∈ working s, k ∈ s.shared.removed ∧ k ∉ s.shared.cancelled

namespace Point

theorem inFlight_of_atRest (h : p.atRest = true) : p.inFlight = p.workingTask.toList.length := by
  cases p <;> first | rfl | cases h

private theorem debt_of_atRest (h : p.atRest = true)
    (hins : ∀ task, p = .insertTask task → task.taskId ≠ taskId) :
    p.debt taskId = p.holds taskId := by
  cases p with
  | insertTask task => exact if_neg (hins task rfl)
  | execute | completeRemove => simp only [debt, holds, workingTask, activeTask, Option.map_some,
      Option.some.injEq]
  | _ => first | rfl | cases h

end Point

namespace Accounts

variable {s : RecoverySystem}

section

variable (h : Accounts s)
include h

private theorem nodup_working : (working s).Nodup := by
  apply Distinct.nodup_filterMap
  intro i j p q k hp hq hkp hkq
  obtain ⟨task, htask, hk⟩ := Option.map_eq_some_iff.mp hkp
  obtain ⟨task', htask', hk'⟩ := Option.map_eq_some_iff.mp hkq
  apply h.distinct i j p q k hp hq
  · exact Option.map_eq_some_iff.mpr ⟨task, Point.ownTask_of_activeTask htask, hk⟩
  · exact Option.map_eq_some_iff.mpr ⟨task', Point.ownTask_of_activeTask htask', hk'⟩

private theorem mem_working (hk : s.shared.active.lookup k ≠ none) : k ∈ working s := by
  have howner := h.owner k hk
  rw [total_eq_count (f := Point.holds k) fun p _ => rfl] at howner
  exact List.count_pos_iff.mp howner

private theorem active_of_mem_working (hk : k ∈ working s) :
    s.shared.active.lookup k ≠ none ∨ k ∈ s.shared.removed := by
  obtain ⟨p, hp, hwork⟩ := List.mem_filterMap.mp hk
  obtain ⟨task, htask, rfl⟩ := Option.map_eq_some_iff.mp hwork
  obtain ⟨i, hi⟩ := List.mem_iff_getElem?.mp hp
  rcases (h.follows i p hi).present task htask with ⟨task', hact, -⟩ | hrem
  · left
    rw [hact]
    exact Option.some_ne_none task'
  · exact .inr hrem

theorem count_cancelled_le (honce : s.shared.recorded.Nodup)
    (hrest : Between s) (k : Nat) : s.shared.cancelled.count k ≤ (working s).count k := by
  by_cases hk : k ∈ s.shared.cancelled
  · have hrem := h.sound.cancelled k hk
    have hdebt : ∀ p ∈ s.threads, p.debt k = if p.workingTask = some k then 1 else 0 := by
      intro p hp
      apply Point.debt_of_atRest (hrest p hp)
      rintro task rfl rfl
      obtain ⟨i, hi⟩ := List.mem_iff_getElem?.mp hp
      exact ((h.follows i _ hi).fresh task rfl).2 hrem
    have hrec := h.records k
    rw [total_eq_count hdebt, if_pos (h.sound.removed k hrem)] at hrec
    have hone := List.nodup_iff_count_le_one.mp honce k
    change _ + (working s).count k = _ at hrec
    omega
  · rw [List.count_eq_zero_of_not_mem hk]
    exact Nat.zero_le _

private theorem working_perm (hclean : Clean s.shared) (hrest : Between s) :
    (working s).Perm (s.shared.active.keys ++ (s.shared.cancelled ++
      (working s).filter fun k => k ∈ s.shared.removed ∧ k ∉ s.shared.cancelled)) := by
  have hcnt := h.count_cancelled_le hclean.recordedOnce hrest
  have hgone : ∀ k ∈ s.shared.active.keys, k ∉ s.shared.removed := by
    intro k hk hrem
    exact AList.lookup_eq_none.mp (hclean.removedGone k hrem) hk
  have hcanc : s.shared.cancelled.Nodup := by
    rw [List.nodup_iff_count_le_one]
    intro k
    exact (hcnt k).trans (List.nodup_iff_count_le_one.mp h.nodup_working k)
  rw [List.perm_ext_iff_of_nodup h.nodup_working]
  · intro k
    simp only [List.mem_append, List.mem_filter, decide_eq_true_eq]
    constructor
    · intro hk
      rcases h.active_of_mem_working hk with hact | hrem
      · exact .inl (AList.lookup_isSome.mp (Option.isSome_iff_ne_none.mpr hact))
      · by_cases hc : k ∈ s.shared.cancelled
        · exact .inr (.inl hc)
        · exact .inr (.inr ⟨hk, hrem, hc⟩)
    · rintro (hact | hc | ⟨hk, -⟩)
      · apply h.mem_working
        exact fun hnone => AList.lookup_eq_none.mp hnone hact
      · have hpos := List.count_pos_iff.mpr hc
        exact List.count_pos_iff.mp (hpos.trans_le (hcnt k))
      · exact hk
  · refine List.nodup_append.mpr ⟨s.shared.active.nodupKeys, ?_, ?_⟩
    · refine List.nodup_append.mpr ⟨hcanc, h.nodup_working.filter _, ?_⟩
      rintro k hk k' hk' rfl
      exact (of_decide_eq_true (List.mem_filter.mp hk').2).2 hk
    · rintro k hk k' hk' rfl
      rcases List.mem_append.mp hk' with hc | hswept
      · exact hgone k hk (h.sound.cancelled k hc)
      · exact hgone k hk (of_decide_eq_true (List.mem_filter.mp hswept).2).1

end

private theorem balanced_iff (h : Accounts s) (hclean : Clean s.shared) (hrest : Between s) :
    Balanced s.shared ↔ ¬ Swept s := by
  have hstarts := h.starts
  have hfailures := h.failures
  have hcancelling : total Point.cancelling s.threads = 0 := by
    apply total_eq_zero
    intro p hp
    have hp := hrest p hp
    cases p <;> first | rfl | cases hp
  rw [total_eq_length fun p hp => Point.inFlight_of_atRest (hrest p hp)] at hstarts
  change _ = _ + (working s).length at hstarts
  have hlen := (h.working_perm hclean hrest).length_eq
  rw [List.length_append, List.length_append] at hlen
  have hemp : Balanced s.shared ↔ ((working s).filter fun k =>
      k ∈ s.shared.removed ∧ k ∉ s.shared.cancelled).length = 0 := by
    rw [Balanced]
    omega
  rw [hemp, List.length_eq_zero_iff, List.filter_eq_nil_iff, Swept]
  simp only [decide_eq_true_eq, not_exists, not_and]

theorem oneLife_iff (h : Accounts s) : OneLife s ↔ Clean s.shared ∧ ¬ (Between s ∧ Swept s) := by
  rw [not_and]
  constructor
  · rintro ⟨hclean, hbalance⟩
    exact ⟨hclean, fun hrest => (h.balanced_iff hclean hrest).mp (hbalance hrest)⟩
  · rintro ⟨hclean, hswept⟩
    exact ⟨hclean, fun hrest => (h.balanced_iff hclean hrest).mpr (hswept hrest)⟩

end Accounts

/-! ### The steps that keep one life -/

namespace Clean

variable {r r' : RecoveryRun}

private theorem erase (h : Clean r) (gone : List Nat)
    (hget : ∀ k, r'.active.lookup k = if k ∈ gone then none else r.active.lookup k)
    (hrem : ∀ k ∈ r'.removed, k ∈ r.removed ∨ k ∈ gone)
    (hrecorded : r'.recorded = r.recorded) : Clean r' := by
  have hact {k : Nat} {task : RecoveryTask} (hk : r'.active.lookup k = some task) :
      r.active.lookup k = some task := by
    rw [hget] at hk
    split at hk
    · cases hk
    · exact hk
  refine ⟨fun k hk => ?_, hrecorded ▸ h.recordedOnce, fun k k' one two hk hk' => ?_⟩
  · rw [hget]
    rcases hrem k hk with hold | hgone
    · rw [h.removedGone k hold, ite_self]
    · exact if_pos hgone
  · exact h.onePerReplica k k' one two (hact hk) (hact hk')

private theorem insert_iff (h : Clean r) (task : RecoveryTask) :
    Clean (r.setActive (r.active.insert task.taskId task)) ↔
      task.taskId ∉ r.removed ∧ ∀ k other, r.active.lookup k = some other →
        other.replicaId = task.replicaId → k = task.taskId := by
  have hget (k : Nat) : (r.setActive (r.active.insert task.taskId task)).active.lookup
      k = if k = task.taskId then some task else r.active.lookup k :=
    HashMap.lookup_insert_eq r.active task.taskId k task
  constructor
  · intro hnew
    constructor
    · intro hrem
      have hgone := hnew.removedGone task.taskId hrem
      rw [hget, if_pos rfl] at hgone
      cases hgone
    · intro k other hk hrepl
      by_cases hsame : k = task.taskId
      · exact hsame
      · apply hnew.onePerReplica k task.taskId other task _ _ hrepl
        · rw [hget, if_neg hsame, hk]
        · rw [hget, if_pos rfl]
  · rintro ⟨hrem, hrepl⟩
    refine ⟨fun k hk => ?_, h.recordedOnce, fun k k' one two hk hk' hsame => ?_⟩
    · have hne : k ≠ task.taskId := fun heq => hrem (heq ▸ hk)
      rw [hget, if_neg hne]
      exact h.removedGone k hk
    · rw [hget] at hk hk'
      split at hk
      · next hkey =>
          obtain rfl := Option.some.inj hk
          split at hk'
          · next hkey' => rw [hkey, hkey']
          · rw [hkey, hrepl k' two hk' hsame.symm]
      · split at hk'
        · next hkey' =>
            obtain rfl := Option.some.inj hk'
            rw [hkey', hrepl k one hk hsame]
        · exact h.onePerReplica k k' one two hk hk' hsame

private theorem record_iff (h : Clean r) (completed : CompletedRecovery) :
    Clean (r.record completed) ↔ completed.taskId ∉ r.recorded := by
  constructor
  · intro hnew hold
    have honce := hnew.recordedOnce
    exact (List.nodup_append.mp honce).2.2 _ hold _ List.mem_cons_self rfl
  · intro hnot
    refine ⟨h.removedGone, ?_, h.onePerReplica⟩
    exact List.nodup_append.mpr ⟨h.recordedOnce, List.nodup_singleton _, fun k hk k' hk' hsame =>
      hnot (List.mem_singleton.mp hk' ▸ hsame ▸ hk)⟩

end Clean

namespace Point

variable {r : RecoveryRun} {p : Point}

/-- The next step of the call is safe: it starts no second task for a replica, writes no
task that was removed, and records no task for the second time. -/
def Safe (r : RecoveryRun) : Point → Prop
  | insertTask task => ∀ k other, r.active.lookup k = some other →
    other.replicaId ≠ task.replicaId
  | execute task _ => task.taskId ∉ r.removed
  | completeRecord task | cancelRecord task => task.taskId ∉ r.recorded
  | _ => True

theorem clean_advance_iff (hfol : r.Follows p) (hclean : Clean r) (now : Nat) :
    Clean (p.advance now r).2 ↔ p.Safe r := by
  have hsame {r' : RecoveryRun} (hact : r'.active = r.active)
      (hrem : r'.removed = r.removed) (hrecorded : r'.recorded = r.recorded) :
      Clean r' ↔ True :=
    iff_true_intro (hclean.erase [] (fun k => by rw [hact, if_neg List.not_mem_nil])
      (fun k hk => .inl (hrem ▸ hk)) hrecorded)
  cases p with
  | startRecovery =>
    rw [advance]
    split <;> exact hsame rfl rfl rfl
  | insertTask task =>
    obtain ⟨hnone, hnot⟩ := hfol.fresh task rfl
    refine (hclean.insert_iff task).trans ⟨fun ⟨_, hone⟩ k other hk hrepl => ?_,
      fun hsafe => ⟨hnot, fun k other hk hrepl => absurd hrepl (hsafe k other hk)⟩⟩
    rw [hone k other hk hrepl, hnone] at hk
    cases hk
  | execute task =>
    refine (hclean.insert_iff { task with lastActivity := now }).trans
      ⟨fun h => h.1, fun hnot => ⟨hnot, fun k other hk hrepl => ?_⟩⟩
    rcases hfol.present task rfl with ⟨own, hown, hsameReplica⟩ | hrem
    · exact hclean.onePerReplica k task.taskId other own hk hown
        (hrepl.trans hsameReplica.symm)
    · exact absurd hrem hnot
  | completeRemove task =>
    apply iff_true_intro
    exact hclean.erase [task.taskId] (lookup_erase r task.taskId) (fun k hk => .inl hk) rfl
  | completeRecord | cancelRecord => exact hclean.record_iff _
  | cancelRecovery taskId =>
    rw [advance]
    split
    · apply iff_true_intro
      exact hclean.erase [taskId] (lookup_erase r taskId) (fun k hk => List.mem_append.mp hk) rfl
    · exact hsame rfl rfl rfl
  | cleanupStaleTasks =>
    apply iff_true_intro
    exact hclean.erase (r.staleTasks now) (HashMap.lookup_eraseAll _ r.active)
      (fun k hk => List.mem_append.mp hk) rfl
  | _ => exact hsame rfl rfl rfl

/-- As `Safe`, with a condition on cancellation in place of the one on records: no active
task is cancelled. -/
def Calm (r : RecoveryRun) : Point → Prop
  | insertTask task => ∀ k other, r.active.lookup k = some other →
    other.replicaId ≠ task.replicaId
  | execute task _ => task.taskId ∉ r.removed
  | cancelRecovery taskId => r.active.lookup taskId = none
  | _ => True

/-- The call's next step ends at rest. -/
def Settles (r : RecoveryRun) : Point → Prop
  | insertTask _ | completeRemove _ | completeRecord _ | cancelRecord _ => False
  | cancelRecovery taskId => r.active.lookup taskId = none
  | _ => True

/-- The tasks that the call's next step cleans up. -/
def sweeps (now : Nat) (r : RecoveryRun) : Point → List Nat
  | cleanupStaleTasks => r.staleTasks now
  | _ => []

theorem atRest_advance_iff (now : Nat) :
    (p.advance now r).1.atRest = true ↔ p.Settles r := by
  cases p with
  | startRecovery =>
    rw [advance]
    split <;> exact iff_of_true rfl trivial
  | execute task later =>
    exact iff_of_true (apply_afterUpdate { task with lastActivity := now } later rfl rfl) trivial
  | cancelRecovery taskId =>
    rw [advance, Settles]
    split <;> simp [*, atRest]
  | insertTask | completeRemove | completeRecord | cancelRecord =>
    exact iff_of_false Bool.false_ne_true id
  | _ => exact iff_of_true rfl trivial

theorem advance_of_settles (h : p.Settles r) (now : Nat) :
    (p.advance now r).1.workingTask = p.workingTask ∧
      (p.advance now r).2.removed = r.removed ++ p.sweeps now r ∧
      (p.advance now r).2.cancelled = r.cancelled := by
  cases p with
  | startRecovery =>
    rw [advance]
    split <;> exact ⟨rfl, (List.append_nil _).symm, rfl⟩
  | cancelRecovery taskId =>
    rw [advance, show r.active.lookup taskId = none from h]
    exact ⟨rfl, (List.append_nil _).symm, rfl⟩
  | execute task later =>
    have hwork := congrArg (Option.map RecoveryTask.taskId)
      (activeTask_afterUpdate { task with lastActivity := now } later)
    exact ⟨hwork, (List.append_nil _).symm, rfl⟩
  | cleanupStaleTasks => exact ⟨rfl, rfl, rfl⟩
  | insertTask | completeRemove | completeRecord | cancelRecord => cases h
  | _ => exact ⟨rfl, (List.append_nil _).symm, rfl⟩

def hasReturned : Point → Bool
  | returned _ => true
  | _ => false

end Point

/-- The step of the call `p` ends between operations, and a call is at work on a task that cleanup
has removed before or removes with this step. -/
def Exposes (s : RecoverySystem) (e : Nat × Nat) (p : Point) : Prop :=
  p.Settles s.shared ∧ (∀ j q, j ≠ e.1 → s.threads[j]? = some q → q.atRest = true) ∧
    ∃ k ∈ working s, (k ∈ s.shared.removed ∨ k ∈ p.sweeps e.2 s.shared) ∧
      k ∉ s.shared.cancelled

/-- A turn in which the call that moves, if there is one, meets a condition, and exposes no task
that cleanup has removed. -/
def Meets (condition : Point → RecoveryRun → Prop) (s : RecoverySystem) (e : Nat × Nat) : Prop :=
  ∀ p, s.threads[e.1]? = some p → Point.ready s.threads p = true →
    condition p s.shared ∧ ¬ Exposes s e p

/-- The turn keeps one life. -/
def Orderly : RecoverySystem → Nat × Nat → Prop := Meets fun p r => p.Safe r

/-- The turn keeps one life, and cancels no active task. -/
def Undisturbed : RecoverySystem → Nat × Nat → Prop := Meets fun p r => p.Calm r

variable {e : Nat × Nat}

namespace Accounts

variable {s : RecoverySystem}

theorem oneLife_new (calls : List RecoveryCall) : OneLife (.new calls) := by
  apply (Accounts.new calls).oneLife_iff.mpr
  refine ⟨⟨?_, List.nodup_nil, ?_⟩, ?_⟩
  · intro taskId h
    cases h
  · intro k k' task task' h
    cases h
  · rintro ⟨-, k, -, hrem, -⟩
    cases hrem

private theorem exposes_iff (hp : s.threads[e.1]? = some p) :
    let after : RecoverySystem := ⟨(p.advance e.2 s.shared).2,
      s.threads.set e.1 (p.advance e.2 s.shared).1⟩
    Between after ∧ Swept after ↔ Exposes s e p := by
  intro after
  have hbetween : Between after ↔ p.Settles s.shared ∧
      ∀ j q, j ≠ e.1 → s.threads[j]? = some q → q.atRest = true := by
    rw [← Point.atRest_advance_iff e.2]
    exact forall_mem_set_iff hp
  rw [hbetween, and_assoc, Exposes]
  refine and_congr_right fun hsettles => and_congr_right fun _ => ?_
  obtain ⟨hwork, hrem, hcanc⟩ := Point.advance_of_settles hsettles e.2
  rw [Swept, working, filterMap_set hp hwork, hrem, hcanc]
  simp only [List.mem_append]
  rfl

theorem oneLife_step_iff (h : Accounts s) (hlife : OneLife s) (e : Nat × Nat) :
    OneLife (s.step e) ↔ Orderly s e := by
  have hnext := (h.step e).oneLife_iff
  rcases s.step_cases e with ⟨hsame, hblk⟩ | ⟨p, hp, hready, hmove⟩
  · rw [hsame]
    refine iff_of_true hlife fun p hp hready => ?_
    rw [hblk p hp] at hready
    cases hready
  · rw [hmove] at hnext ⊢
    refine hnext.trans ((and_congr (Point.clean_advance_iff (h.follows e.1 p hp) hlife.clean e.2)
      (not_congr (exposes_iff hp))).trans ?_)
    constructor
    · intro hsafe q hq _
      rw [hp] at hq
      exact Option.some.inj hq ▸ hsafe
    · intro hall
      exact hall p hp hready

theorem safe_of_calm (h : Accounts s) (hnone : s.shared.cancelled = []) {i : Nat}
    (hp : s.threads[i]? = some p) (hcalm : p.Calm s.shared) : p.Safe s.shared := by
  cases p with
  | insertTask | execute => exact hcalm
  | completeRecord task =>
    have howes : 1 ≤ (Point.completeRecord task).debt task.taskId :=
      Nat.le_of_eq (if_pos rfl).symm
    have hdebt := howes.trans (le_total _ hp)
    have hrec := h.records task.taskId
    rw [hnone, List.count_nil] at hrec
    have htaken : (if s.shared.Taken task.taskId then 1 else 0) ≤ 1 := by
      split
      · exact Nat.le_refl _
      · exact Nat.zero_le _
    apply List.count_eq_zero.mp
    omega
  | cancelRecord =>
    -- a call that records a cancellation has cancelled
    have hcancelling : 1 ≤ total Point.cancelling s.threads := le_total Point.cancelling hp
    have hfailures := h.failures
    rw [hnone, List.length_nil] at hfailures
    omega
  | _ => exact True.intro

theorem cancelled_eq_nil (h : Accounts s) (honce : s.shared.recorded.Nodup)
    (hend : ∀ p ∈ s.threads, p.hasReturned = true) : s.shared.cancelled = [] := by
  have hidle : ∀ p ∈ s.threads, p.atRest = true ∧ p.workingTask = none := by
    intro p hp
    have hreturned := hend p hp
    cases p <;> first | exact ⟨rfl, rfl⟩ | cases hreturned
  have hworking : working s = [] := List.filterMap_eq_nil_iff.mpr fun p hp => (hidle p hp).2
  apply List.eq_nil_iff_forall_not_mem.mpr
  intro k hk
  have hpos := List.count_pos_iff.mpr hk
  have hle := h.count_cancelled_le honce (fun p hp => (hidle p hp).1) k
  rw [hworking, List.count_nil] at hle
  omega

end Accounts

variable {s : RecoverySystem}

theorem RecoverySystem.cancelled_step (h : s.shared.cancelled ≠ []) :
    (s.step e).shared.cancelled ≠ [] := by
  rcases s.step_cases e with ⟨hsame, -⟩ | ⟨p, hp, -, hmove⟩
  · rw [hsame]
    exact h
  · rw [hmove]
    rcases Point.cancelled_advance e.2 p s.shared with hsame | ⟨taskId, task, -, -, hstep⟩
    · exact hsame.symm ▸ h
    · rw [hstep]
      exact List.append_ne_nil_of_right_ne_nil _ (List.cons_ne_nil _ _)

theorem RecoverySystem.cancelled_eq_nil {es : List (Nat × Nat)}
    (h : (es.foldl RecoverySystem.step s).shared.cancelled = []) : s.shared.cancelled = [] := by
  by_contra hne
  have halways : Always RecoverySystem.step (fun t => t.shared.cancelled ≠ []) s es :=
    always_of_step hne fun t e => RecoverySystem.cancelled_step
  exact halways.last h

theorem Undisturbed.cancelled_eq_nil (h : Undisturbed s e) (hnone : s.shared.cancelled = []) :
    (s.step e).shared.cancelled = [] := by
  rcases s.step_cases e with ⟨hsame, -⟩ | ⟨p, hp, hready, hmove⟩
  · rw [hsame, hnone]
  · rw [hmove]
    rcases Point.cancelled_advance e.2 p s.shared with hsame | ⟨taskId, task, rfl, hget, -⟩
    · exact hsame.trans hnone
    · have hcalm : s.shared.active.lookup taskId = none := (h _ hp hready).1
      rw [hget] at hcalm
      cases hcalm

theorem Orderly.undisturbed (h : Orderly s e) (hnone : (s.step e).shared.cancelled = []) :
    Undisturbed s e := by
  intro p hp hready
  obtain ⟨hsafe, hexposes⟩ := h p hp hready
  refine ⟨?_, hexposes⟩
  cases p with
  | insertTask | execute => exact hsafe
  | cancelRecovery =>
    apply Option.eq_none_iff_forall_ne_some.mpr
    intro task htask
    have hmove : s.step e = _ := step_of_ready hp hready
    rw [hmove, Point.advance_cancelRecovery htask] at hnone
    exact List.append_ne_nil_of_right_ne_nil _ (List.cons_ne_nil _ _) hnone
  | _ => exact True.intro

/-- Recovery tasks have one life in a run iff every turn of it is orderly: a call puts its
task into the active tasks only when the replica has none there, updates it only when it
was not removed in the meantime, a record is the first of its task, and no call is left at
work, between operations, on a task that cleanup has removed.  That no active task is cancelled
can take the place of the condition on records; in a run to the end it is needed as well. -/
theorem one_life_iff (calls : List RecoveryCall) (schedule : List (Nat × Nat)) :
    (Always RecoverySystem.step OneLife (.new calls) schedule ↔
        EachStep RecoverySystem.step Orderly (.new calls) schedule) ∧
      (EachStep RecoverySystem.step Undisturbed (.new calls) schedule →
        Always RecoverySystem.step OneLife (.new calls) schedule) ∧
      ((∀ p ∈ (schedule.foldl RecoverySystem.step (.new calls)).threads, p.hasReturned = true) →
        (Always RecoverySystem.step OneLife (.new calls) schedule ↔
          EachStep RecoverySystem.step Undisturbed (.new calls) schedule)) := by
  have hiff : Always RecoverySystem.step OneLife (.new calls) schedule ↔
      EachStep RecoverySystem.step Orderly (.new calls) schedule := by
    apply always_iff_eachStep (I := Accounts) (Accounts.new calls) (Accounts.oneLife_new calls)
    · intro s e h _ _
      exact h.step e
    · intro s e h hlife
      exact h.oneLife_step_iff hlife e
  have henough : EachStep RecoverySystem.step Undisturbed (.new calls) schedule →
      Always RecoverySystem.step OneLife (.new calls) schedule := by
    intro hcalm
    apply hiff.mpr
    refine hcalm.mono (I := fun s => Accounts s ∧ s.shared.cancelled = [])
      ⟨Accounts.new calls, rfl⟩ ?_ ?_
    · rintro s e ⟨h, hnone⟩ hund p hp hready
      obtain ⟨hcalm, hexposes⟩ := hund p hp hready
      exact ⟨h.safe_of_calm hnone hp hcalm, hexposes⟩
    · rintro s e ⟨h, hnone⟩ hund
      exact ⟨h.step e, hund.cancelled_eq_nil hnone⟩
  refine ⟨hiff, henough, fun hend => ⟨fun hlife h e hpre => ?_, henough⟩⟩
  apply (hiff.mp hlife h e hpre).undisturbed
  have haccounts : Always RecoverySystem.step Accounts (.new calls) schedule :=
    always_of_step (Accounts.new calls) fun s e hs => hs.step e
  have hnone := haccounts.last.cancelled_eq_nil hlife.last.clean.recordedOnce hend
  obtain ⟨rest, rfl⟩ := hpre
  rw [List.foldl_append, List.foldl_append] at hnone
  exact RecoverySystem.cancelled_eq_nil hnone

/-- Two recoveries take turns, a third call finds the first one's task, and a cleanup comes in
between. -/
theorem one_life_interleaved :
    let calls : List RecoveryCall := [.startRecovery ⟨7⟩ .dataCorruption,
      .startRecovery ⟨8⟩ .dataCorruption, .startRecovery ⟨7⟩ .dataCorruption, .cleanupStaleTasks]
    let schedule := [(0, 0), (0, 0), (1, 0), (0, 0), (2, 0), (0, 0), (3, 0), (1, 0), (0, 0), (1, 0),
      (1, 0), (0, 0), (0, 0), (1, 0), (1, 0), (0, 0), (1, 0), (1, 0)]
    (∀ p ∈ (schedule.foldl RecoverySystem.step (.new calls)).threads, p.hasReturned = true) ∧
      (Always RecoverySystem.step OneLife (.new calls) schedule ↔
        EachStep RecoverySystem.step Undisturbed (.new calls) schedule) :=
  ⟨by decide, (one_life_iff _ _).2.2 (by decide)⟩

/-- A recovery is cancelled before its only update, which makes its task active again. -/
theorem recovery_not_one_life : ¬ Always RecoverySystem.step OneLife
    (.new [.startRecovery ⟨7⟩ .dataCorruption, .cancelRecovery 1])
    [(0, 0), (0, 0), (0, 0), (0, 0), (1, 0), (1, 0), (1, 0), (0, 0)] := by
  intro h
  have hgone := h.last.clean.removedGone 1 (by decide)
  revert hgone
  decide

end Kaelix.Storage.Replication
