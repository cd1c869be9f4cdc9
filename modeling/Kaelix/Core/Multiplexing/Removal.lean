import Kaelix.Core.Multiplexing.SchedulerRuns

/-!
# Removed tasks

A removal empties the queue that the lookup table names, and forgets the task.  But a task that is
handed back after it was removed is queued again, at the first level, and one that is queued twice
may be in a queue that the table does not name.
-/

namespace Kaelix.Core.Multiplexing

open Lib Lib.Queues MLFQScheduler
open scoped List

/-- A scheduler and its users: the identifiers that were removed, as long as `add_task` is not
called with them again, and the tasks that were taken and not handed back. -/
structure Session (config : SchedulerConfig) where
  scheduler : MLFQScheduler config
  removed : List UInt64
  held : List SchedulableTask

namespace Session

variable {config : SchedulerConfig} (scale : UInt8 → Nat → Nat)

def start (config : SchedulerConfig) (now : Nat) : Session config :=
  { scheduler := MLFQScheduler.new config now, removed := [], held := [] }

section

variable (s : Session config)

def removedAfter : Call → List UInt64
  | .addTask task => s.removed.filter fun taskId => taskId ≠ task.taskId
  | .removeTask taskId =>
    match (s.scheduler.removeTask taskId).1 with
    | .ok _ => taskId :: s.removed
    | .error _ => s.removed
  | _ => s.removed

def heldAfter : Call → List SchedulableTask
  | .getNextTask => s.held ++ s.scheduler.getNextTask.1.toList
  | .updateTaskAfterExecution task _ _ => s.held.erase task
  | _ => s.held

/-- A call, and what the users know after it. -/
def step (call : Call) : Session config :=
  { scheduler := s.scheduler.advance scale call
    removed := s.removedAfter call
    held := s.heldAfter call }

/-- The call returns no task that was removed. -/
def NotReturned (call : Call) : Prop :=
  ∀ task, s.scheduler.nextTask call = some (some task) → task.taskId ∉ s.removed

/-- However often `get_next_task` is called, it does not return a task that was removed. -/
def StaysRemoved : Prop :=
  ∀ k, EachStep (step scale) NotReturned s (List.replicate k .getNextTask)

/-- The identifiers in the queues. -/
def queuedIds : List UInt64 :=
  (contents s.scheduler.queues).map SchedulableTask.taskId

/-- No queued task was removed. -/
def Clean : Prop := ∀ taskId ∈ s.queuedIds, taskId ∉ s.removed

end

variable {s : Session config}

theorem mem_queuedIds {taskId : UInt64} :
    taskId ∈ s.queuedIds ↔ ∃ level, ∃ task ∈ s.scheduler.queues level, task.taskId = taskId := by
  simp only [queuedIds, List.mem_map, mem_contents]
  constructor
  · rintro ⟨task, ⟨level, hlvl⟩, hid⟩
    exact ⟨level, task, hlvl, hid⟩
  · rintro ⟨level, task, hlvl, hid⟩
    exact ⟨task, ⟨level, hlvl⟩, hid⟩

theorem Clean.notReturned (h : s.Clean) (call : Call) : s.NotReturned call := by
  intro task hnext
  cases call with
  | getNextTask =>
    have hsome : s.scheduler.getNextTask.1 = some task := Option.some.inj hnext
    rcases s.scheduler.getNextTask_cases with
      ⟨hnone, -, -⟩ | ⟨level, task', rest, hlvl, hget, -⟩
    · rw [hnone] at hsome
      cases hsome
    · rw [hget] at hsome
      obtain rfl := Option.some.inj hsome
      exact h _ (mem_queuedIds.mpr ⟨level, task', hlvl ▸ List.mem_cons_self, rfl⟩)
  | _ => cases hnext

theorem Clean.getNextTask (h : s.Clean) : (s.step scale .getNextTask).Clean := by
  intro taskId hid
  obtain ⟨level, task, htask, rfl⟩ := mem_queuedIds.mp hid
  apply h
  refine mem_queuedIds.mpr ⟨level, task, ?_, rfl⟩
  have hqueue : task ∈ s.scheduler.getNextTask.2.queues level := htask
  rcases s.scheduler.getNextTask_cases with ⟨-, hsame, -⟩ | ⟨i, first, rest, hi, -, hrest⟩
  · rwa [hsame] at hqueue
  · rw [hrest] at hqueue
    apply (update_sublist _ level).subset hqueue
    rw [hi]
    exact List.sublist_cons_self first rest

variable {task : SchedulableTask}

private theorem notMem_removed_of_nextTasks {k : Nat}
    (h : EachStep (step scale) NotReturned s (List.replicate k .getNextTask))
    (hmem : some task ∈ s.scheduler.nextTasks scale (List.replicate k .getNextTask)) :
    task.taskId ∉ s.removed := by
  induction k generalizing s with
  | zero => cases hmem
  | succ k ih =>
    rw [List.replicate_succ, eachStep_cons] at h
    rw [List.replicate_succ, nextTasks, outputs, List.mem_append] at hmem
    rcases hmem with hfirst | hrest
    · exact h.1 task (Option.mem_toList.mp hfirst)
    · -- the call leaves the removed identifiers as they are
      have hnext : task.taskId ∉ (s.step scale .getNextTask).removed := ih h.2 hrest
      exact hnext

private theorem length_nextTasks_replicate (k : Nat) (s : MLFQScheduler config) :
    (s.nextTasks scale (List.replicate k .getNextTask)).length = k := by
  induction k generalizing s with
  | zero => rfl
  | succ k ih =>
    rw [List.replicate_succ, nextTasks, outputs, List.length_append]
    exact (congrArg (1 + ·) (ih _)).trans (Nat.add_comm 1 k)

section

variable (s : Session config)

theorem staysRemoved_iff_clean : s.StaysRemoved scale ↔ s.Clean := by
  constructor
  · intro h taskId hid
    obtain ⟨level, task, htask, rfl⟩ := mem_queuedIds.mp hid
    obtain ⟨front, back, hqueue⟩ := List.append_of_mem htask
    -- enough calls to reach the task
    have hk := h (config.priorityLevels * (front.length + 1))
    apply notMem_removed_of_nextTasks scale hk
    apply List.mem_of_mem_take
    apply s.scheduler.mem_nextTasks scale hqueue
    · intro call hcall
      rw [List.eq_of_mem_replicate hcall]
      trivial
    · rw [length_nextTasks_replicate]
  · intro h k
    induction k generalizing s with
    | zero => exact eachStep_nil
    | succ k ih =>
      rw [List.replicate_succ]
      exact eachStep_cons.mpr ⟨h.notReturned _, ih _ (h.getNextTask scale)⟩

/-- A removal finds all tasks with the identifier in the queue that the lookup table names,
and no task is handed back after it was removed. -/
def Orderly : Call → Prop
  | .removeTask taskId => ∀ level, s.scheduler.taskLookup.lookup taskId = some level →
    ∀ other, other ≠ level → ∀ task ∈ s.scheduler.queues other, task.taskId ≠ taskId
  | .updateTaskAfterExecution task _ _ => task.taskId ∉ s.removed
  | _ => True

/-- Nothing is removed where there are no queues. -/
def NoneRemoved : Prop := config.priorityLevels = 0 → s.removed = []

theorem removedAfter_removeTask (taskId : UInt64) :
    s.removedAfter (.removeTask taskId) =
      if (s.scheduler.taskLookup.lookup taskId).isSome then taskId :: s.removed
      else s.removed := by
  rw [removedAfter, removeTask]
  cases s.scheduler.taskLookup.lookup taskId <;> rfl

end

theorem NoneRemoved.step (h : s.NoneRemoved) (call : Call) : (s.step scale call).NoneRemoved := by
  intro hzero
  have hnil := h hzero
  cases call with
  | addTask task =>
    have hrem : (s.step scale (.addTask task)).removed =
        s.removed.filter fun taskId => taskId ≠ task.taskId := rfl
    rw [hrem, hnil, List.filter_nil]
  | removeTask taskId =>
    have hnone : s.scheduler.taskLookup.lookup taskId = none := by
      cases hlk : s.scheduler.taskLookup.lookup taskId with
      | none => rfl
      | some level => exact absurd level.pos (by omega)
    exact (s.removedAfter_removeTask taskId).trans (by rw [hnone]; exact hnil)
  | _ => exact hnil

variable {s s' : Session config}

theorem clean_of_perm (h : s.Clean) (hids : s'.queuedIds ~ s.queuedIds)
    (hrem : s'.removed = s.removed) : s'.Clean := by
  intro taskId hid
  rw [hrem]
  exact h taskId (hids.subset hid)

variable {level : Fin config.priorityLevels}

private theorem clean_push_iff (h : s.Clean)
    (hqs : s'.scheduler.queues = push s.scheduler.queues level task)
    (hrem : s'.removed ⊆ s.removed) : s'.Clean ↔ task.taskId ∉ s'.removed := by
  have hids : s'.queuedIds ~ task.taskId :: s.queuedIds := by
    rw [queuedIds, hqs]
    exact (perm_contents_push s.scheduler.queues level task).map SchedulableTask.taskId
  constructor
  · intro hclean
    exact hclean _ (hids.mem_iff.mpr List.mem_cons_self)
  · intro htask taskId hid
    rcases List.mem_cons.mp (hids.subset hid) with rfl | hid
    · exact htask
    · exact fun hmem => h taskId hid (hrem hmem)

private theorem clean_removeTask_iff (h : s.Clean) (taskId : UInt64) :
    (s.step scale (.removeTask taskId)).Clean ↔ s.Orderly (.removeTask taskId) := by
  have hrem := s.removedAfter_removeTask taskId
  cases hlk : s.scheduler.taskLookup.lookup taskId with
  | none =>
    have hsame : (s.scheduler.removeTask taskId).2 = s.scheduler := by
      rw [removeTask, hlk]
    rw [hlk] at hrem
    refine iff_of_true ?_ fun level hlvl => ?_
    · exact clean_of_perm h (by rw [queuedIds, step, advance, hsame]; rfl) hrem
    · rw [hlk] at hlvl
      cases hlvl
  | some level =>
    have hqs : (s.step scale (.removeTask taskId)).scheduler.queues =
        Function.update s.scheduler.queues level
          ((s.scheduler.queues level).filter fun task => task.taskId ≠ taskId) := by
      rw [step, advance, removeTask, hlk]
    rw [hlk] at hrem
    have hmem : ∀ id, id ∉ (s.step scale (.removeTask taskId)).removed ↔
        id ≠ taskId ∧ id ∉ s.removed := by
      intro id
      rw [step, hrem]
      exact List.mem_cons.not.trans not_or
    constructor
    · intro hclean level' hlvl' other hoth task htask
      obtain rfl : level = level' := Option.some.inj (hlk.symm.trans hlvl')
      refine ((hmem _).mp (hclean task.taskId (mem_queuedIds.mpr ⟨other, task, ?_, rfl⟩))).1
      rwa [hqs, Function.update_of_ne hoth]
    · intro hord id hid
      obtain ⟨other, task, htask, rfl⟩ := mem_queuedIds.mp hid
      rw [hqs] at htask
      have hold := (update_sublist List.filter_sublist other).subset htask
      refine (hmem _).mpr ⟨?_, h _ (mem_queuedIds.mpr ⟨other, task, hold, rfl⟩)⟩
      by_cases hoth : other = level
      · subst hoth
        rw [Function.update_self] at htask
        simpa using (List.mem_filter.mp htask).2
      · exact hord level hlk other hoth task hold

theorem clean_step_iff (hnone : s.NoneRemoved) (h : s.Clean)
    (call : Call) : (s.step scale call).Clean ↔ s.Orderly call := by
  cases call with
  | addTask task =>
    refine iff_of_true ?_ trivial
    have hrem : (s.step scale (.addTask task)).removed ⊆ s.removed :=
      List.filter_sublist.subset
    rcases s.scheduler.addTask_cases scale task with heq | ⟨level, -, heq⟩
    · intro taskId hid hmem
      rw [queuedIds, step, advance, heq] at hid
      exact h taskId hid (hrem hmem)
    · have hqs : (s.step scale (.addTask task)).scheduler.queues =
          push s.scheduler.queues level task := by
        rw [step, advance, heq]
        rfl
      refine (clean_push_iff h hqs hrem).mpr fun hmem => ?_
      simpa using (List.mem_filter.mp hmem).2
  | removeTask taskId => exact clean_removeTask_iff scale h taskId
  | getNextTask => exact iff_of_true (h.getNextTask scale) trivial
  | updateTaskAfterExecution task executionTime now =>
    by_cases hpos : 0 < config.priorityLevels
    · obtain ⟨task', hid, hqs, -⟩ :=
        s.scheduler.updateTaskAfterExecution_spec hpos task executionTime now
      have hpush : (s.step scale (.updateTaskAfterExecution task executionTime now)).Clean ↔
          task'.taskId ∉ s.removed := clean_push_iff h hqs (List.Subset.refl _)
      rwa [hid] at hpush
    · refine iff_of_true (fun taskId hid => ?_) ?_
      · obtain ⟨level, -⟩ := mem_queuedIds.mp hid
        exact absurd level.pos hpos
      · have hnil : s.removed = [] := hnone (by omega)
        rw [Orderly, hnil]
        exact List.not_mem_nil
  | performAging now =>
    exact iff_of_true (clean_of_perm h (s.scheduler.perm_ids_performAging now) rfl) trivial
  | performWorkStealing =>
    exact iff_of_true (clean_of_perm h (s.scheduler.perm_performWorkStealing.map _) rfl) trivial

theorem clean_start (config : SchedulerConfig) (now : Nat) : (start config now).Clean :=
  fun _ _ => List.not_mem_nil

/-! ### Users that hand back what they took -/

/-- A task is added under an identifier that is not in use, and a task is handed back by one
that took it. -/
def Disciplined (s : Session config) : Call → Prop
  | .addTask task => task.taskId ∉ s.queuedIds ∧ task.taskId ∉ s.held.map SchedulableTask.taskId
  | .updateTaskAfterExecution task _ _ => task ∈ s.held
  | _ => True

/-- No task is handed back after its removal. -/
def HandsBackLive (s : Session config) : Call → Prop
  | .updateTaskAfterExecution task _ _ => task.taskId ∉ s.removed
  | _ => True

/-- Every task in use has an identifier of its own.  The lookup table has the level of the
queued ones, and some level for those that are held, unless they were removed. -/
structure Tracked (s : Session config) : Prop where
  distinct : (s.queuedIds ++ s.held.map SchedulableTask.taskId).Nodup
  lookup : ∀ level, ∀ task ∈ s.scheduler.queues level,
    s.scheduler.taskLookup.lookup task.taskId = some level
  held : ∀ task ∈ s.held, task.taskId ∉ s.removed →
    (s.scheduler.taskLookup.lookup task.taskId).isSome

theorem Tracked.agrees (h : s.Tracked) : s.scheduler.Agrees where
  distinct := (List.nodup_append.mp h.distinct).1
  lookup := h.lookup

theorem tracked_start (config : SchedulerConfig) (now : Nat) : (start config now).Tracked where
  distinct := by
    have hemp : (start config now).queuedIds = [] :=
      List.map_eq_nil_iff.mpr (contents_eq_nil.mpr fun _ => rfl)
    rw [hemp]
    exact List.nodup_nil
  lookup := fun _ _ htask => absurd htask List.not_mem_nil
  held := fun _ htask => absurd htask List.not_mem_nil

theorem Tracked.orderly_iff (h : s.Tracked) (call : Call) :
    s.Orderly call ↔ s.HandsBackLive call := by
  cases call with
  | removeTask =>
    refine iff_of_true (fun level hlvl other hoth task htask heq => ?_) trivial
    have hnoted := h.lookup other task htask
    rw [heq, hlvl] at hnoted
    exact hoth (Option.some.inj hnoted).symm
  | _ => exact Iff.rfl

theorem Tracked.of_places (h : s.Tracked)
    (hpl : Places s.scheduler s'.scheduler level task)
    (hdist : (task.taskId :: (s.queuedIds ++ s'.held.map SchedulableTask.taskId)).Nodup)
    (hheld : ∀ other ∈ s'.held, other ∈ s.held ∧
      (other.taskId ≠ task.taskId → other.taskId ∉ s'.removed → other.taskId ∉ s.removed)) :
    s'.Tracked := by
  have hnew : task.taskId ∉ s.queuedIds := fun hmem =>
    (List.nodup_cons.mp hdist).1 (List.mem_append_left _ hmem)
  constructor
  · have hids : s'.queuedIds ~ task.taskId :: s.queuedIds := by
      rw [queuedIds, hpl.queues]
      exact (perm_contents_push s.scheduler.queues level task).map SchedulableTask.taskId
    exact (hids.append_right _).nodup_iff.mpr hdist
  · exact (h.agrees.place hpl hnew).lookup
  · intro other hoth hrem
    obtain ⟨hold, hlive⟩ := hheld other hoth
    rw [hpl.lookup]
    split
    · rfl
    · next hne => exact h.held other hold (hlive hne hrem)

theorem Tracked.addTask (h : s.Tracked)
    (hnew : s.Disciplined (.addTask task)) : (s.step scale (.addTask task)).Tracked := by
  have hlive : ∀ other ∈ s.held, other.taskId ≠ task.taskId →
      other.taskId ∉ (s.step scale (.addTask task)).removed → other.taskId ∉ s.removed := by
    intro other _ hne hnot hmem
    exact hnot (List.mem_filter.mpr ⟨hmem, by simpa using hne⟩)
  rcases s.scheduler.addTask_cases scale task with heq | ⟨level, -, heq⟩
  · have hsched : (s.step scale (.addTask task)).scheduler = s.scheduler := heq
    constructor
    · rw [queuedIds, hsched]
      exact h.distinct
    · rw [hsched]
      exact h.lookup
    · intro other hoth hrem
      rw [hsched]
      have hne : other.taskId ≠ task.taskId :=
        fun heq => hnew.2 (heq ▸ List.mem_map_of_mem hoth)
      exact h.held other hoth (hlive other hoth hne hrem)
  · have hpl : Places s.scheduler (s.step scale (.addTask task)).scheduler level task := by
      rw [Session.step, advance, heq]
      exact places_setLevel _ _ _
    apply h.of_places hpl
    · refine List.nodup_cons.mpr ⟨fun hmem => ?_, h.distinct⟩
      exact (List.mem_append.mp hmem).elim hnew.1 hnew.2
    · exact fun other hoth => ⟨hoth, hlive other hoth⟩

theorem Tracked.removeTask (h : s.Tracked) (taskId : UInt64) :
    (s.step scale (.removeTask taskId)).Tracked := by
  have hrem := s.removedAfter_removeTask taskId
  cases hlk : s.scheduler.taskLookup.lookup taskId with
  | none =>
    have hsched : (s.step scale (.removeTask taskId)).scheduler = s.scheduler := by
      rw [Session.step, advance, MLFQScheduler.removeTask, hlk]
    rw [hlk] at hrem
    constructor
    · rw [queuedIds, hsched]
      exact h.distinct
    · rw [hsched]
      exact h.lookup
    · intro other hoth hnot
      rw [hsched]
      rw [Session.step, hrem] at hnot
      exact h.held other hoth hnot
  | some level =>
    have hsched : (s.step scale (.removeTask taskId)).scheduler =
        { s.scheduler with
          taskLookup := s.scheduler.taskLookup.erase taskId
          queues := Function.update s.scheduler.queues level
            ((s.scheduler.queues level).filter fun task => task.taskId ≠ taskId) } := by
      rw [Session.step, advance, MLFQScheduler.removeTask, hlk]
    rw [hlk] at hrem
    constructor
    · refine List.Nodup.sublist (List.Sublist.append_right ?_ _) h.distinct
      rw [queuedIds, hsched]
      exact (sublist_contents (update_sublist List.filter_sublist)).map _
    · intro other task htask
      rw [hsched] at htask ⊢
      dsimp only at htask ⊢
      have hold := (update_sublist List.filter_sublist other).subset htask
      have hnoted := h.lookup other task hold
      have hne : task.taskId ≠ taskId := by
        intro heq
        rw [heq, hlk] at hnoted
        obtain rfl := Option.some.inj hnoted
        rw [Function.update_self] at htask
        simpa [heq] using (List.mem_filter.mp htask).2
      rw [HashMap.lookup_erase_eq, if_neg hne, hnoted]
    · intro other hoth hnot
      rw [Session.step, hrem] at hnot
      obtain ⟨hne, hnot⟩ := not_or.mp (List.mem_cons.not.mp hnot)
      rw [hsched, HashMap.lookup_erase_eq, if_neg hne]
      exact h.held other hoth hnot

private theorem perm_ids_take {s t : Session config} {rest : List SchedulableTask}
    (hlvl : s.scheduler.queues level = task :: rest)
    (hqs : t.scheduler.queues = Function.update s.scheduler.queues level rest)
    (hheld : t.held = s.held ++ [task]) :
    t.queuedIds ++ t.held.map SchedulableTask.taskId ~
      s.queuedIds ++ s.held.map SchedulableTask.taskId := by
  have htake := perm_contents_take s.scheduler.queues level
    (List.Perm.of_eq hlvl.symm : [task] ++ rest ~ _)
  have hids : t.queuedIds ++ [task.taskId] ~ s.queuedIds := by
    rw [queuedIds, hqs]
    have hmap := htake.map SchedulableTask.taskId
    rwa [List.map_append] at hmap
  rw [hheld, List.map_append]
  apply (List.perm_append_comm.append_left _).trans
  rw [← List.append_assoc]
  exact hids.append_right _

section

variable (h : s.Tracked)
include h

theorem Tracked.getNextTask : (s.step scale .getNextTask).Tracked := by
  have htable : (s.step scale .getNextTask).scheduler.taskLookup = s.scheduler.taskLookup :=
    s.scheduler.taskLookup_getNextTask
  rcases s.scheduler.getNextTask_cases with
    ⟨hnone, hsame, -⟩ | ⟨level, task, rest, hlvl, hget, hrest⟩
  · have hqs : (s.step scale .getNextTask).scheduler.queues = s.scheduler.queues := hsame
    have hheld : (s.step scale .getNextTask).held = s.held := by
      rw [Session.step, heldAfter, hnone]
      exact List.append_nil _
    constructor
    · rw [queuedIds, hqs, hheld]
      exact h.distinct
    · rw [hqs, htable]
      exact h.lookup
    · rw [hheld, htable]
      exact h.held
  · have hqs : (s.step scale .getNextTask).scheduler.queues =
        Function.update s.scheduler.queues level rest := hrest
    have hheld : (s.step scale .getNextTask).held = s.held ++ [task] := by
      rw [Session.step, heldAfter, hget]
      rfl
    constructor
    · exact (perm_ids_take hlvl hqs hheld).nodup_iff.mpr h.distinct
    · intro other waiting hwaiting
      rw [htable]
      rw [hqs] at hwaiting
      refine h.lookup other waiting ((update_sublist ?_ other).subset hwaiting)
      rw [hlvl]
      exact List.sublist_cons_self task rest
    · intro other hoth hnot
      rw [htable]
      rw [hheld, List.mem_append, List.mem_singleton] at hoth
      rcases hoth with hoth | rfl
      · exact h.held other hoth hnot
      · rw [h.lookup level other (hlvl ▸ List.mem_cons_self)]
        rfl

theorem Tracked.updateTaskAfterExecution (htask : task ∈ s.held) (hlive : task.taskId ∉ s.removed)
    (executionTime now : Nat) :
    (s.step scale (.updateTaskAfterExecution task executionTime now)).Tracked := by
  have hnoted := h.held task htask hlive
  obtain ⟨level, -⟩ := Option.isSome_iff_exists.mp hnoted
  obtain ⟨task', hid, -, hpl⟩ :=
    s.scheduler.updateTaskAfterExecution_spec level.pos task executionTime now
  refine h.of_places (hpl hnoted) ?_ ?_
  · -- the task is no longer held
    have hperm : s.queuedIds ++ s.held.map SchedulableTask.taskId ~
        task'.taskId :: (s.queuedIds ++ (s.held.erase task).map SchedulableTask.taskId) := by
      rw [hid]
      apply List.Perm.trans _ List.perm_middle
      exact ((List.perm_cons_erase htask).map SchedulableTask.taskId).append_left _
    exact hperm.nodup_iff.mp h.distinct
  · exact fun other hoth => ⟨List.mem_of_mem_erase hoth, fun _ hnot => hnot⟩

theorem Tracked.of_moves (hagrees : s'.scheduler.Agrees) (hids : s'.queuedIds ~ s.queuedIds)
    (hnoted : ∀ taskId, (s.scheduler.taskLookup.lookup taskId).isSome →
      (s'.scheduler.taskLookup.lookup taskId).isSome)
    (hheld : s'.held = s.held) (hrem : s'.removed = s.removed) : s'.Tracked := by
  constructor
  · rw [hheld]
    exact (hids.append_right _).nodup_iff.mpr h.distinct
  · exact hagrees.lookup
  · intro task htask hnot
    rw [hheld] at htask
    rw [hrem] at hnot
    exact hnoted _ (h.held task htask hnot)

theorem Tracked.step {call : Call} (hcall : s.Disciplined call) (hlive : s.HandsBackLive call) :
    (s.step scale call).Tracked := by
  cases call with
  | addTask => exact h.addTask scale hcall
  | removeTask taskId => exact h.removeTask scale taskId
  | getNextTask => exact h.getNextTask scale
  | updateTaskAfterExecution task executionTime now =>
    exact h.updateTaskAfterExecution scale hcall hlive executionTime now
  | performAging now =>
    exact h.of_moves (h.agrees.performAging now) (s.scheduler.perm_ids_performAging now)
      (s.scheduler.isSome_lookup_performAging now) rfl rfl
  | performWorkStealing =>
    exact h.of_moves h.agrees.performWorkStealing (s.scheduler.perm_performWorkStealing.map _)
      s.scheduler.isSome_lookup_performWorkStealing rfl rfl

private theorem handsBackLive_iff_orderly {calls : List Call}
    (hcalls : EachStep (step scale) Disciplined s calls) :
    EachStep (step scale) Orderly s calls ↔ EachStep (step scale) HandsBackLive s calls := by
  constructor
  · intro hord
    have hboth : EachStep (step scale) (fun s call => s.Disciplined call ∧ s.Orderly call) s
        calls := fun before call hpre =>
      ⟨hcalls before call hpre, hord before call hpre⟩
    exact hboth.mono h (fun t call ht hC => (ht.orderly_iff call).mp hC.2)
      fun t call ht hC => ht.step scale hC.1 ((ht.orderly_iff call).mp hC.2)
  · intro hlive
    have hboth : EachStep (step scale) (fun s call => s.Disciplined call ∧ s.HandsBackLive call)
        s calls := fun before call hpre =>
      ⟨hcalls before call hpre, hlive before call hpre⟩
    exact hboth.mono h (fun t call ht hC => (ht.orderly_iff call).mpr hC.2)
      fun t call ht hC => ht.step scale hC.1 hC.2

end

/-- At every moment of a history no removed task can be returned iff every removal finds its
task where the lookup table says, and no task is handed back after it was removed.  Where
identifiers in use are not added again, and every task is handed back by one that took it, the
latter suffices. -/
theorem removed_stay_removed_iff (config : SchedulerConfig) (now : Nat) (calls : List Call) :
    (Always (step scale) (StaysRemoved scale) (start config now) calls ↔
      EachStep (step scale) Orderly (start config now) calls) ∧
    (EachStep (step scale) Disciplined (start config now) calls →
      (Always (step scale) (StaysRemoved scale) (start config now) calls ↔
        EachStep (step scale) HandsBackLive (start config now) calls)) := by
  have hord : Always (step scale) (StaysRemoved scale) (start config now) calls ↔
      EachStep (step scale) Orderly (start config now) calls := by
    refine always_iff_eachStep (I := NoneRemoved) (fun _ => rfl)
      ((staysRemoved_iff_clean scale _).mpr (clean_start config now)) ?_ ?_
    · intro t call ht _ _
      exact ht.step scale call
    · intro t call hnone ht
      rw [staysRemoved_iff_clean] at ht ⊢
      exact clean_step_iff scale hnone ht call
  refine ⟨hord, fun hcalls => ?_⟩
  rw [hord, handsBackLive_iff_orderly scale (tracked_start config now) hcalls]

def resurrection : List Call :=
  [.addTask (.new 1 100 0 0), .getNextTask, .removeTask 1,
    .updateTaskAfterExecution (.new 1 100 0 0) 0 0]

theorem resurrection_returns_removed :
    EachStep (step fun _ _ => 0) Disciplined (start twoLevels 0) resurrection ∧
      ¬Always (step fun _ _ => 0) (StaysRemoved fun _ _ => 0) (start twoLevels 0)
        resurrection := by
  constructor
  · simp only [resurrection, eachStep_cons]
    exact ⟨⟨by decide, by decide⟩, trivial, trivial, List.mem_singleton_self _, eachStep_nil⟩
  · intro h
    have hnext := (eachStep_cons.mp (h.last 1)).1
      ((SchedulableTask.new 1 100 0 0).updateAfterExecution 0 0)
    exact absurd (hnext (by decide)) (by decide)

end Session

end Kaelix.Core.Multiplexing
