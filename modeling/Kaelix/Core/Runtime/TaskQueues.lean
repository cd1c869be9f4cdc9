import Kaelix.Lib.History
import Kaelix.Lib.Guards

/-!
# The task queues of the runtime

`TaskQueues` of `runtime/scheduler.rs`: a queue for each of three classes of priority, and behind
a lock the numbers of pending tasks.  What it is for is the list of the pending tasks in the order
of their arrival, from which `pop` takes the oldest of the most urgent class.
-/

namespace Kaelix.Core.Runtime

open Lib

inductive Priority where
  | low | normal | high | critical
  deriving DecidableEq

structure ScheduledTask where
  id : UInt64
  priority : Priority
  deriving DecidableEq

structure QueueStats where
  totalPending : Nat
  highPriorityPending : Nat
  mediumPriorityPending : Nat
  lowPriorityPending : Nat
  deriving DecidableEq

/-- A queue for each class, and the statistics. -/
structure TaskQueues where
  highPriority : List ScheduledTask
  mediumPriority : List ScheduledTask
  lowPriority : List ScheduledTask
  stats : RwLock QueueStats
  deriving DecidableEq

namespace TaskQueues

def new : TaskQueues :=
  { highPriority := []
    mediumPriority := []
    lowPriority := []
    stats := .new
      { totalPending := 0, highPriorityPending := 0, mediumPriorityPending := 0,
        lowPriorityPending := 0 } }

/-- `TaskQueues::push`.  There is no result if a request for the lock is not granted. -/
def push (q : TaskQueues) (task : ScheduledTask) : Option TaskQueues := do
  let q ← match task.priority with
    | .high | .critical => do
      let q := { q with highPriority := q.highPriority ++ [task] }
      let stats ← q.stats.update fun s =>
        { s with highPriorityPending := s.highPriorityPending + 1 }
      pure { q with stats }
    | .normal => do
      let q := { q with mediumPriority := q.mediumPriority ++ [task] }
      let stats ← q.stats.update fun s =>
        { s with mediumPriorityPending := s.mediumPriorityPending + 1 }
      pure { q with stats }
    | .low => do
      let q := { q with lowPriority := q.lowPriority ++ [task] }
      let stats ← q.stats.update fun s =>
        { s with lowPriorityPending := s.lowPriorityPending + 1 }
      pure { q with stats }
  let stats ← q.stats.update fun s => { s with totalPending := s.totalPending + 1 }
  return { q with stats }

/-- The statements of `TaskQueues::pop` that count a task of one class down. -/
def countDown (stats : RwLock QueueStats) (pending : QueueStats → Nat)
    (setPending : QueueStats → Nat → QueueStats) : Option (RwLock QueueStats) := do
  let stats ← stats.assign (fun s => pending s - 1) setPending
  stats.assign (fun s => s.totalPending - 1) fun s n => { s with totalPending := n }

/-- The oldest task of the highest class. -/
def pop (q : TaskQueues) : Option (Option ScheduledTask × TaskQueues) :=
  match q.highPriority with
  | task :: rest => do
    let stats ← countDown q.stats (·.highPriorityPending) fun s n =>
      { s with highPriorityPending := n }
    return (some task, { q with highPriority := rest, stats })
  | [] =>
    match q.mediumPriority with
    | task :: rest => do
      let stats ← countDown q.stats (·.mediumPriorityPending) fun s n =>
        { s with mediumPriorityPending := n }
      return (some task, { q with mediumPriority := rest, stats })
    | [] =>
      match q.lowPriority with
      | task :: rest => do
        let stats ← countDown q.stats (·.lowPriorityPending) fun s n =>
          { s with lowPriorityPending := n }
        return (some task, { q with lowPriority := rest, stats })
      | [] => return (none, q)

end TaskQueues

/-! ## What the queues are for -/

/-- The queue a priority goes to. -/
inductive PriorityClass where
  | high | medium | low
  deriving DecidableEq

def ScheduledTask.class (task : ScheduledTask) : PriorityClass :=
  match task.priority with
  | .high | .critical => .high
  | .normal => .medium
  | .low => .low

def oldest (pending : List ScheduledTask) (c : PriorityClass) : Option ScheduledTask :=
  pending.find? fun task => task.class = c

/-- The oldest pending task of the most urgent class that has one. -/
def mostUrgent (pending : List ScheduledTask) : Option ScheduledTask :=
  oldest pending .high <|> oldest pending .medium <|> oldest pending .low

/-- The queues' calls. -/
inductive Call where
  | push (task : ScheduledTask)
  | pop
  deriving DecidableEq

/-- What they answer. -/
inductive Reply where
  | pushed
  | popped (task : Option ScheduledTask)
  deriving DecidableEq

namespace Call

def run (q : TaskQueues) : Call → Option (Reply × TaskQueues)
  | .push task => (q.push task).map fun q => (.pushed, q)
  | .pop => q.pop.map fun (task, q) => (.popped task, q)

variable (pending : List ScheduledTask)

def expected : Call → Reply
  | .push _ => .pushed
  | .pop => .popped (mostUrgent pending)

def pendingAfter : Call → List ScheduledTask
  | .push task => pending ++ [task]
  | .pop => match mostUrgent pending with
    | some task => pending.erase task
    | none => pending

end Call

section

variable (s : Option TaskQueues × List ScheduledTask)

/-- A call on queues that may have blocked, next to the tasks that should be pending. -/
def callStep (call : Call) : Option TaskQueues × List ScheduledTask :=
  ((s.1.bind (call.run ·)).map Prod.snd, call.pendingAfter s.2)

/-- The statistics are the lengths of the queues. -/
structure Counted (q : TaskQueues) : Prop where
  high : q.stats.value.highPriorityPending = q.highPriority.length
  medium : q.stats.value.mediumPriorityPending = q.mediumPriority.length
  low : q.stats.value.lowPriorityPending = q.lowPriority.length
  total : q.stats.value.totalPending =
    q.highPriority.length + q.mediumPriority.length + q.lowPriority.length

/-- The call returns, with the reply that it should, and the counters are right after it. -/
def Works (call : Call) : Prop :=
  ∃ q reply q', s.1 = some q ∧ call.run q = some (reply, q') ∧ reply = call.expected s.2 ∧
    Counted q'

end

/-! ## Calls that return -/

/-- The queues hold the pending tasks, each class in the order of arrival, and the lock is
free. -/
structure Holds (q : TaskQueues) (pending : List ScheduledTask) : Prop where
  high : q.highPriority = pending.filter (·.class = .high)
  medium : q.mediumPriority = pending.filter (·.class = .medium)
  low : q.lowPriority = pending.filter (·.class = .low)
  counted : Counted q
  free : q.stats = .new q.stats.value

theorem holds_new : Holds .new [] := ⟨rfl, rfl, rfl, ⟨rfl, rfl, rfl, rfl⟩, rfl⟩

variable {q : TaskQueues} {pending : List ScheduledTask}

def TaskQueues.pushed (q : TaskQueues) (task : ScheduledTask) : TaskQueues :=
  let s := q.stats.value
  match task.class with
  | .high =>
    { q with
      highPriority := q.highPriority ++ [task]
      stats := .new { s with
        highPriorityPending := s.highPriorityPending + 1, totalPending := s.totalPending + 1 } }
  | .medium =>
    { q with
      mediumPriority := q.mediumPriority ++ [task]
      stats := .new { s with
        mediumPriorityPending := s.mediumPriorityPending + 1
        totalPending := s.totalPending + 1 } }
  | .low =>
    { q with
      lowPriority := q.lowPriority ++ [task]
      stats := .new { s with
        lowPriorityPending := s.lowPriorityPending + 1, totalPending := s.totalPending + 1 } }

theorem push_of_free (hfree : q.stats = .new q.stats.value) (task : ScheduledTask) :
    q.push task = some (q.pushed task) := by
  rw [TaskQueues.push, TaskQueues.pushed, ScheduledTask.class, hfree]
  cases task.priority <;> rfl

theorem Holds.pushed (h : Holds q pending) (task : ScheduledTask) :
    Holds (q.pushed task) (pending ++ [task]) := by
  obtain ⟨hhigh, hmedium, hlow, htot⟩ := h.counted
  cases hclass : task.class with
  | high =>
    simp only [TaskQueues.pushed, hclass]
    exact ⟨by simp [h.high, hclass], by simp [h.medium, hclass], by simp [h.low, hclass],
      ⟨by simp [RwLock.new, hhigh], hmedium, hlow, by simp [RwLock.new, htot]; omega⟩, rfl⟩
  | medium =>
    simp only [TaskQueues.pushed, hclass]
    exact ⟨by simp [h.high, hclass], by simp [h.medium, hclass], by simp [h.low, hclass],
      ⟨hhigh, by simp [RwLock.new, hmedium], hlow, by simp [RwLock.new, htot]; omega⟩, rfl⟩
  | low =>
    simp only [TaskQueues.pushed, hclass]
    exact ⟨by simp [h.high, hclass], by simp [h.medium, hclass], by simp [h.low, hclass],
      ⟨hhigh, hmedium, by simp [RwLock.new, hlow], by simp [RwLock.new, htot]; omega⟩, rfl⟩

private theorem countDown_eq_none (stats : RwLock QueueStats) (pending : QueueStats → Nat)
    (setPending : QueueStats → Nat → QueueStats) :
    TaskQueues.countDown stats pending setPending = none := by
  simp [TaskQueues.countDown, RwLock.assign_eq_none]

theorem pop_eq_none (h : q.highPriority ≠ [] ∨ q.mediumPriority ≠ [] ∨ q.lowPriority ≠ []) :
    q.pop = none := by
  rw [TaskQueues.pop]
  split
  · simp [countDown_eq_none]
  · split
    · simp [countDown_eq_none]
    · split
      · simp [countDown_eq_none]
      · simp_all

theorem Holds.pop_eq_none (h : Holds q pending) (hne : pending ≠ []) : q.pop = none := by
  obtain ⟨task, rest, rfl⟩ := List.exists_cons_of_ne_nil hne
  apply Runtime.pop_eq_none
  rw [h.high, h.medium, h.low]
  cases hclass : task.class <;> simp [hclass]

theorem Holds.pop_nil (h : Holds q []) : q.pop = some (none, q) := by
  simp [TaskQueues.pop, h.high, h.medium, h.low]

theorem Holds.works_iff (h : Holds q pending) (call : Call) :
    Works (some q, pending) call ↔ (call = .pop → pending = []) := by
  cases call with
  | push task =>
    simp [Works, Call.run, push_of_free h.free, Call.expected, (h.pushed task).counted]
  | pop =>
    by_cases hne : pending = []
    · subst hne
      simp [Works, Call.run, h.pop_nil, Call.expected, h.counted, mostUrgent, oldest]
    · simp [Works, Call.run, h.pop_eq_none hne, hne]

theorem Holds.step (h : Holds q pending) {call : Call} (hcall : call = .pop → pending = []) :
    ∃ q', (callStep (some q, pending) call).1 = some q' ∧
      Holds q' (callStep (some q, pending) call).2 := by
  cases call with
  | push task =>
    exact ⟨q.pushed task, by simp [callStep, Call.run, push_of_free h.free], h.pushed task⟩
  | pop =>
    have hnil := hcall rfl
    subst hnil
    exact ⟨q, by simp [callStep, Call.run, h.pop_nil], h⟩

/-- Over any sequence of calls: every one returns with the right reply and the right counters
iff every `pop` finds nothing pending. -/
theorem taskQueues_work_iff (calls : List Call) :
    EachStep callStep Works (some .new, []) calls ↔
      EachStep callStep (fun s call => call = .pop → s.2 = []) (some .new, []) calls := by
  apply eachStep_congr (I := fun s => ∃ q, s.1 = some q ∧ Holds q s.2)
  · exact ⟨.new, rfl, holds_new⟩
  · rintro ⟨-, pending⟩ call ⟨q, rfl, h⟩
    exact h.works_iff call
  · rintro ⟨-, pending⟩ call ⟨q, rfl, h⟩ hworks
    exact h.step ((h.works_iff call).mp hworks)

/-- One task is pushed; the `pop` after it does not return. -/
theorem taskQueues_block :
    let task : ScheduledTask := { id := 1, priority := .normal }
    (TaskQueues.new.push task).bind TaskQueues.pop = none ∧
      ¬ EachStep callStep Works (some .new, []) [.push task, .pop] := by
  intro task
  have hblock : (TaskQueues.new.push task).bind TaskQueues.pop = none := rfl
  refine ⟨hblock, fun h => ?_⟩
  obtain ⟨q, reply, q', hq, hrun, -⟩ := h [.push task] .pop (List.prefix_refl _)
  cases hq
  cases hrun

end Kaelix.Core.Runtime
