import Kaelix.Core.Multiplexing.Moves
import Kaelix.Lib.History

/-!
# Runs of the scheduler

Calls to one scheduler, one after another, in any order and with any arguments.
-/

namespace Kaelix.Core.Multiplexing

open Lib Lib.Queues
open scoped List

/-- The calls of a scheduler. -/
inductive Call where
  | addTask (task : SchedulableTask)
  | removeTask (taskId : UInt64)
  | getNextTask
  | updateTaskAfterExecution (task : SchedulableTask) (executionTime now : Nat)
  | performAging (now : Nat)
  | performWorkStealing
  deriving DecidableEq

namespace MLFQScheduler

variable {config : SchedulerConfig} (scale : UInt8 → Nat → Nat)

section

variable (s : MLFQScheduler config)

/-- The scheduler after a call. -/
def advance : Call → MLFQScheduler config
  | .addTask task => (s.addTask scale task).2
  | .removeTask taskId => (s.removeTask taskId).2
  | .getNextTask => s.getNextTask.2
  | .updateTaskAfterExecution task executionTime now =>
    (s.updateTaskAfterExecution task executionTime now).2
  | .performAging now => s.performAging now
  | .performWorkStealing => s.performWorkStealing.2

def nextTask : Call → Option (Option SchedulableTask)
  | .getNextTask => some s.getNextTask.1
  | _ => none

/-! ### One call -/

def destination (h : 0 < config.priorityLevels)
    (task : SchedulableTask) (executionTime now : Nat) : Fin config.priorityLevels :=
  if (task.updateAfterExecution executionTime now).needsDemotion then
    levelBelow (s.levelOf h task.taskId)
  else s.levelOf h task.taskId

theorem updateTaskAfterExecution_spec
    (h : 0 < config.priorityLevels) (task : SchedulableTask) (executionTime now : Nat) :
    ∃ task', task'.taskId = task.taskId ∧
      (s.updateTaskAfterExecution task executionTime now).2.queues =
        push s.queues (s.destination h task executionTime now) task' ∧
      ((s.taskLookup.lookup task.taskId).isSome →
        Places s (s.updateTaskAfterExecution task executionTime now).2
          (s.destination h task executionTime now) task') := by
  unfold updateTaskAfterExecution destination
  rw [dif_pos h]
  dsimp only
  split
  · exact ⟨_, SchedulableTask.taskId_resetFor config
      (levelBelow (s.levelOf h task.taskId)) (task.updateAfterExecution executionTime now),
      rfl, fun _ => s.places_setLevel _ _⟩
  · refine ⟨task.updateAfterExecution executionTime now, rfl, rfl, fun hsome => ⟨rfl, ?_⟩⟩
    intro taskId
    split
    · next heq =>
      obtain ⟨level, hlvl⟩ := Option.isSome_iff_exists.mp hsome
      subst heq
      exact hlvl.trans (congrArg some (by rw [levelOf, hlvl]; rfl))
    · rfl

theorem addTask_cases (task : SchedulableTask) :
    (s.addTask scale task).2 = s ∨ ∃ level, (s.queues level).length < config.maxTasksPerQueue ∧
      (s.addTask scale task).2 = (s.pushBack level task).setLevel task.taskId level := by
  unfold addTask
  split
  · exact .inl rfl
  · next level _ =>
    split
    · exact .inl rfl
    · next hroom => exact .inr ⟨level, by omega, rfl⟩

theorem getNextTask_eq (h : 0 < config.priorityLevels) :
    s.getNextTask.1 = (serve config.priorityLevels (s.rota h)).1 ∧
      s.getNextTask.2.rota h = (serve config.priorityLevels (s.rota h)).2 := by
  unfold getNextTask
  rw [dif_pos h]
  exact ⟨rfl, rfl⟩

theorem getNextTask_cases :
    (s.getNextTask.1 = none ∧ s.getNextTask.2.queues = s.queues ∧ ∀ level, s.queues level = []) ∨
      ∃ level task rest, s.queues level = task :: rest ∧ s.getNextTask.1 = some task ∧
        s.getNextTask.2.queues = Function.update s.queues level rest := by
  by_cases h : 0 < config.priorityLevels
  · have hqs : s.getNextTask.2.queues = (serve config.priorityLevels (s.rota h)).2.queues :=
      congrArg Rota.queues (s.getNextTask_eq h).2
    rw [hqs, (s.getNextTask_eq h).1]
    rcases serve_cases config.priorityLevels (s.rota h) with
      ⟨hnone, hsame, hemp⟩ | ⟨level, task, rest, hlvl, -, hserve⟩
    · exact .inl ⟨hnone, hsame, fun level => hemp level (turns_lt _ _)⟩
    · rw [hserve]
      exact .inr ⟨level, task, rest, hlvl, rfl, rfl⟩
  · left
    unfold getNextTask
    rw [dif_neg h]
    exact ⟨rfl, rfl, fun level => absurd level.pos h⟩

theorem taskLookup_getNextTask : s.getNextTask.2.taskLookup = s.taskLookup := by
  unfold getNextTask
  split <;> rfl

end

/-! ### Round robin -/

/-- A call of the users, which moves no other tasks. -/
def Serves : Call → Prop
  | .addTask _ | .getNextTask | .updateTaskAfterExecution _ _ _ => True
  | _ => False

variable {level : Fin config.priorityLevels} {s s' : MLFQScheduler config}
    {task : SchedulableTask}

private theorem grows_push (h : 0 < config.priorityLevels)
    (hqs : s'.queues = push s.queues level task)
    (hcurrent : s'.currentQueue = s.currentQueue) : Grows (s.rota h) (s'.rota h) where
  cursor := Fin.ext hcurrent
  queues := fun j => by
    have hpush : (s'.rota h).queues j = push s.queues level task j := congrFun hqs j
    rw [hpush, push_apply]
    split
    · next hj => exact hj ▸ List.prefix_append _ _
    · exact List.prefix_refl _

section

variable (s : MLFQScheduler config)

private theorem currentQueue_updateTaskAfterExecution (task : SchedulableTask)
    (executionTime now : Nat) :
    (s.updateTaskAfterExecution task executionTime now).2.currentQueue = s.currentQueue := by
  unfold updateTaskAfterExecution
  split
  · dsimp only
    split <;> rfl
  · rfl

private theorem servesOrGrows (h : 0 < config.priorityLevels) (s : MLFQScheduler config)
    {call : Call}
    (hcall : Serves call) : ServesOrGrows (advance scale) nextTask (fun s => s.rota h) s call := by
  cases call with
  | addTask task =>
    refine .inr ⟨rfl, ?_⟩
    dsimp only [advance]
    rcases s.addTask_cases scale task with heq | ⟨level, -, heq⟩
    · rw [heq]
      exact ⟨rfl, fun j => List.prefix_refl _⟩
    · rw [heq]
      exact grows_push h rfl rfl
  | removeTask => exact hcall.elim
  | getNextTask =>
    exact .inl ⟨congrArg some (s.getNextTask_eq h).1, (s.getNextTask_eq h).2⟩
  | updateTaskAfterExecution task executionTime now =>
    obtain ⟨task', -, hqs, -⟩ := s.updateTaskAfterExecution_spec h task executionTime now
    exact .inr ⟨rfl, grows_push h hqs
      (s.currentQueue_updateTaskAfterExecution task executionTime now)⟩
  | _ => exact hcall.elim

def nextTasks (calls : List Call) : List (Option SchedulableTask) :=
  outputs (advance scale) nextTask s calls

theorem mem_nextTasks {front back : List SchedulableTask}
    (hqueue : s.queues level = front ++ task :: back) {calls : List Call}
    (hcalls : ∀ call ∈ calls, Serves call)
    (hcnt : config.priorityLevels * (front.length + 1) ≤ (s.nextTasks scale calls).length) :
    some task ∈ (s.nextTasks scale calls).take (config.priorityLevels * (front.length + 1)) := by
  have h : 0 < config.priorityLevels := level.pos
  have hwaits : Waits (s.rota h) level front.length task := ⟨front, back, hqueue, rfl⟩
  exact served_within (fun t call hcall => servesOrGrows scale h t (hcalls call hcall))
    hwaits hcnt

/-- Round robin starves no task.  A queued task is returned by one of the next
`levels * (p + 1)` calls to `get_next_task`, where `p` tasks are before it in its queue,
whatever is added and handed back in between.  Nothing is returned only where all queues are
empty. -/
theorem round_robin_serves (s : MLFQScheduler config) :
    (∀ level front task back, s.queues level = front ++ task :: back →
      ∀ calls : List Call, (∀ call ∈ calls, Serves call) →
        config.priorityLevels * (front.length + 1) ≤ (s.nextTasks scale calls).length →
        some task ∈ (s.nextTasks scale calls).take (config.priorityLevels * (front.length + 1))) ∧
    (s.getNextTask.1 = none → ∀ level, s.queues level = []) := by
  constructor
  · intro level front task back hqueue calls hcalls hcnt
    exact s.mem_nextTasks scale hqueue hcalls hcnt
  · intro hnone
    rcases s.getNextTask_cases with ⟨-, -, hemp⟩ | ⟨level, task, rest, -, hsome, -⟩
    · exact hemp
    · rw [hsome] at hnone
      cases hnone

/-- The last of three tasks at level 1 is served, while tasks are added at level 0. -/
theorem round_robin_serves_crowded :
    let calls := (List.replicate 9 [.addTask (.new 5 100 255 0), .getNextTask]).flatten
    some (.new 9 103 100 (millis 2000)) ∈ (crowded.nextTasks (fun _ _ => 0) calls).take 9 :=
  (round_robin_serves (fun _ _ => 0) crowded).1 ⟨1, by decide⟩
    [.new 7 101 100 0, .new 8 102 100 (millis 2000)] (.new 9 103 100 (millis 2000)) [] (by decide) _
    (by simp [Serves]) (by decide)

/-! ### Bounds -/

/-- No queue is longer than allowed. -/
def Bounded : Prop :=
  ∀ level, (s.queues level).length ≤ config.maxTasksPerQueue

/-- The call finds room in the queues to which it pushes.  `add_task` looks for itself. -/
def HasRoom : Call → Prop
  | .updateTaskAfterExecution task executionTime now => ∀ h : 0 < config.priorityLevels,
    (s.queues (s.destination h task executionTime now)).length < config.maxTasksPerQueue
  | .performAging now => millis 1000 ≤ now - s.lastAging → ∀ level,
    (s.kept now level).length + (s.raised now level).length ≤ config.maxTasksPerQueue
  | .performWorkStealing => config.enableWorkStealing → ∀ level, s.receiver = some level →
    (s.queues level).length +
      (List.finRange config.priorityLevels).countP s.overloaded ≤ config.maxTasksPerQueue
  | .addTask _ | .removeTask _ | .getNextTask => True

end

private theorem bounded_push_iff (hs : s.Bounded) (hqs : s'.queues = push s.queues level task) :
    s'.Bounded ↔ (s.queues level).length < config.maxTasksPerQueue := by
  constructor
  · intro h
    have hlvl := h level
    rw [hqs, push_apply, if_pos rfl, List.length_append, List.length_singleton] at hlvl
    omega
  · intro hroom i
    have hi := hs i
    rw [hqs, push_apply]
    split
    · rw [List.length_append, List.length_singleton]
      omega
    · exact hi

theorem Bounded.shrink (hs : s.Bounded)
    (h : ∀ level, (s'.queues level).length ≤ (s.queues level).length) : s'.Bounded :=
  fun level => (h level).trans (hs level)

variable {s : MLFQScheduler config}

private theorem length_stealFrom_overloaded {j : Fin config.priorityLevels}
    (hj : s.receiver = some j) :
    (stealFrom j ((List.finRange config.priorityLevels).filter s.overloaded) s).1.length =
      (List.finRange config.priorityLevels).countP s.overloaded := by
  rw [stealFrom_fst s.nodup_overloaded (receiver_notMem_overloaded hj), List.length_flatMap,
    List.countP_eq_length_filter]
  have hone : ∀ i ∈ (List.finRange config.priorityLevels).filter s.overloaded,
      (s.queues i).getLast?.toList.length = 1 := by
    intro i hi
    have hsize : (s.queues i).length > config.workStealThreshold :=
      of_decide_eq_true (List.mem_filter.mp hi).2
    have hne : s.queues i ≠ [] := List.ne_nil_of_length_pos (by omega)
    rw [List.getLast?_eq_getLast_of_ne_nil hne]
    rfl
  rw [List.map_congr_left hone]
  simp

private theorem bounded_performWorkStealing_iff (hs : s.Bounded) :
    s.performWorkStealing.2.Bounded ↔ s.HasRoom .performWorkStealing := by
  rw [performWorkStealing_eq, HasRoom]
  by_cases henable : config.enableWorkStealing
  · rw [if_pos henable]
    cases hj : s.receiver with
    | none => exact iff_of_true hs fun _ level hlvl => by cases hlvl
    | some j =>
      have hlen := length_stealFrom_overloaded hj
      have hqs := queues_stealFrom s.nodup_overloaded (receiver_notMem_overloaded hj) s
      constructor
      · intro h _ level hlvl
        obtain rfl := Option.some.inj hlvl
        have hbound := h j
        dsimp only at hbound
        rwa [hqs, if_pos rfl, List.length_append, hlen] at hbound
      · intro h level
        have hroom := h henable j rfl
        have hlvl := hs level
        dsimp only
        rw [hqs]
        split_ifs
        · rwa [List.length_append, hlen]
        · rw [List.length_dropLast]
          omega
        · exact hlvl
  · rw [if_neg henable]
    exact iff_of_true hs fun h => absurd h henable

private theorem bounded_advance_iff (hs : s.Bounded) (call : Call) :
    (s.advance scale call).Bounded ↔ s.HasRoom call := by
  cases call with
  | addTask task =>
    refine iff_of_true ?_ trivial
    dsimp only [advance]
    rcases s.addTask_cases scale task with heq | ⟨level, hroom, heq⟩
    · rwa [heq]
    · have hqs : ((s.pushBack level task).setLevel task.taskId level).queues =
          push s.queues level task := rfl
      rw [heq]
      exact (bounded_push_iff hs hqs).mpr hroom
  | removeTask =>
    refine iff_of_true (hs.shrink fun level => ?_) trivial
    dsimp only [advance, removeTask]
    split
    · next noted _ => exact (update_sublist List.filter_sublist level).length_le
    · exact Nat.le_refl _
  | getNextTask =>
    refine iff_of_true (hs.shrink fun level => ?_) trivial
    dsimp only [advance]
    rcases s.getNextTask_cases with ⟨-, hsame, -⟩ | ⟨i, task, rest, hi, -, hrest⟩
    · rw [hsame]
    · rw [hrest]
      apply (update_sublist _ level).length_le
      rw [hi]
      exact List.sublist_cons_self task rest
  | updateTaskAfterExecution task executionTime now =>
    by_cases h : 0 < config.priorityLevels
    · obtain ⟨task', -, hqs, -⟩ := s.updateTaskAfterExecution_spec h task executionTime now
      rw [advance, bounded_push_iff hs hqs]
      exact ⟨fun hroom _ => hroom, fun hroom => hroom h⟩
    · exact iff_of_true (fun level => absurd level.pos h) fun h' => absurd h' h
  | performAging now =>
    by_cases hearly : now - s.lastAging < millis 1000
    · dsimp only [advance]
      rw [performAging, if_pos hearly]
      exact iff_of_true hs fun hlate => absurd hearly (Nat.not_lt.mpr hlate)
    · dsimp only [advance, Bounded, HasRoom]
      simp only [queues_performAging s hearly, List.length_append]
      exact ⟨fun h _ => h, fun h => h (Nat.not_lt.mp hearly)⟩
  | performWorkStealing => exact bounded_performWorkStealing_iff hs

/-- The queues are bounded throughout iff every call finds room where it pushes. -/
theorem queues_bounded_iff (config : SchedulerConfig) (start : Nat) (calls : List Call) :
    Always (advance scale) Bounded (new config start) calls ↔
      EachStep (advance scale) HasRoom (new config start) calls :=
  always_iff_eachStep (I := fun _ => True) trivial (fun _ => Nat.zero_le _)
    (fun _ _ _ _ _ => trivial) fun _ call _ hs => bounded_advance_iff scale hs call

/-- A task is added, taken, and handed back after another one has come into its place. -/
def overfilling : List Call :=
  [.addTask (.new 1 100 0 0), .getNextTask, .addTask (.new 2 100 0 0),
    .updateTaskAfterExecution (.new 1 100 0 0) 0 0]

theorem overfilling_not_bounded :
    ¬Always (advance fun _ _ => 0) Bounded (new twoLevels 0) overfilling := by
  intro h
  have hfirst := h.last ⟨0, Nat.two_pos⟩
  exact absurd hfirst (by decide)

end MLFQScheduler

end Kaelix.Core.Multiplexing
