import Kaelix.Core.Multiplexing.Scheduler

/-!
# Aging and work stealing

Both take tasks out of queues and push them to others, in loops that work on what they collected
before.  The queues after a call are given in closed form.
-/

namespace Kaelix.Core.Multiplexing

open Lib Lib.Queues
open scoped List

namespace MLFQScheduler

variable {config : SchedulerConfig}

/-! ### Queues and lookup table -/

/-- No two queued tasks have the same identifier, and the lookup table has the level of each
of them. -/
structure Agrees (s : MLFQScheduler config) : Prop where
  distinct : ((contents s.queues).map SchedulableTask.taskId).Nodup
  lookup : ∀ level, ∀ task ∈ s.queues level, s.taskLookup.lookup task.taskId = some level

variable {s s' : MLFQScheduler config}

theorem Agrees.shrink (h : s.Agrees) (hget : s'.taskLookup = s.taskLookup)
    (hsub : ∀ level, s'.queues level <+ s.queues level) : s'.Agrees := by
  constructor
  · exact List.Nodup.sublist ((sublist_contents hsub).map _) h.distinct
  · intro level task htask
    rw [hget]
    exact h.lookup level task ((hsub level).subset htask)

/-- The task is put at the end of the level's queue. -/
structure Places (s s' : MLFQScheduler config) (level : Fin config.priorityLevels)
    (task : SchedulableTask) : Prop where
  queues : s'.queues = push s.queues level task
  lookup : ∀ taskId, s'.taskLookup.lookup taskId =
    if taskId = task.taskId then some level else s.taskLookup.lookup taskId

theorem places_setLevel (s : MLFQScheduler config) (level : Fin config.priorityLevels)
    (task : SchedulableTask) :
    Places s ((s.pushBack level task).setLevel task.taskId level) level task where
  queues := rfl
  lookup := fun taskId => HashMap.lookup_insert_eq s.taskLookup task.taskId taskId level

variable {task : SchedulableTask} {level : Fin config.priorityLevels}

theorem Agrees.place (h : s.Agrees) (hpl : Places s s' level task)
    (hnew : task.taskId ∉ (contents s.queues).map SchedulableTask.taskId) : s'.Agrees := by
  constructor
  · have hperm := (perm_contents_push s.queues level task).map SchedulableTask.taskId
    rw [hpl.queues]
    exact hperm.nodup_iff.mpr (List.nodup_cons.mpr ⟨hnew, h.distinct⟩)
  · intro i other hoth
    have hold : ∀ j, other ∈ s.queues j → other.taskId ≠ task.taskId := by
      intro j hj heq
      exact hnew (heq ▸ List.mem_map_of_mem (mem_contents.mpr ⟨j, hj⟩))
    rw [hpl.queues, push_apply] at hoth
    rw [hpl.lookup]
    by_cases hi : i = level
    · subst hi
      rw [if_pos rfl, List.mem_append, List.mem_singleton] at hoth
      rcases hoth with hoth | rfl
      · rw [if_neg (hold i hoth), h.lookup i other hoth]
      · rw [if_pos rfl]
    · rw [if_neg hi] at hoth
      rw [if_neg (hold i hoth), h.lookup i other hoth]

variable {s : MLFQScheduler config} {i j : Fin config.priorityLevels}

theorem Agrees.eq_of_taskId_eq (h : s.Agrees) {task other : SchedulableTask}
    (htask : task ∈ s.queues i) (hoth : other ∈ s.queues j) (heq : task.taskId = other.taskId) :
    task = other ∧ i = j := by
  constructor
  · exact List.inj_on_of_nodup_map h.distinct (mem_contents.mpr ⟨i, htask⟩)
      (mem_contents.mpr ⟨j, hoth⟩) heq
  · have hi := h.lookup i task htask
    rw [heq, h.lookup j other hoth] at hi
    exact (Option.some.inj hi).symm

/-! ### Aging -/

variable {levels : List (Fin config.priorityLevels)}

theorem queues_ageQueues (now : Nat) (hnd : levels.Nodup) (a : Aging config)
    (level : Fin config.priorityLevels) :
    (levels.foldl (ageQueue now) a).queues level =
      if level ∈ levels then (a.queues level).filter fun task => !overdue config now task
      else a.queues level := by
  induction levels generalizing a with
  | nil => rfl
  | cons first levels ih =>
    obtain ⟨hfirst, hrest⟩ := List.nodup_cons.mp hnd
    rw [List.foldl_cons, ih hrest]
    by_cases hlvl : level = first
    · subst hlvl
      rw [if_neg hfirst, if_pos List.mem_cons_self]
      simp only [ageQueue, Function.update_self]
    · simp only [ageQueue, Function.update_of_ne hlvl, List.mem_cons, hlvl, false_or]

theorem promotedTasks_ageQueues (now : Nat) (hnd : levels.Nodup) (a : Aging config) :
    (levels.foldl (ageQueue now) a).promotedTasks = a.promotedTasks ++
      levels.flatMap fun level => ((a.queues level).filter (overdue config now)).map
        fun task => (task, levelAbove level) := by
  induction levels generalizing a with
  | nil => simp
  | cons first levels ih =>
    obtain ⟨hfirst, hrest⟩ := List.nodup_cons.mp hnd
    rw [List.foldl_cons, ih hrest, List.flatMap_cons, ← List.append_assoc]
    -- the levels that are still to come have their queues as before
    have hsame : ∀ level ∈ levels, (ageQueue now a first).queues level = a.queues level := by
      intro level hlvl
      have hne : level ≠ first := fun h => hfirst (h ▸ hlvl)
      simp only [ageQueue, Function.update_of_ne hne]
    congr 1
    apply List.flatMap_congr
    intro level hlvl
    rw [hsame level hlvl]

section

variable (s : MLFQScheduler config)

variable (promoted : List (SchedulableTask × Fin config.priorityLevels))

theorem queues_promoteAll (level : Fin config.priorityLevels) :
    (promoted.foldl promote s).queues level = s.queues level ++
      (promoted.filter fun p => p.2 = level).map fun p => p.1.resetFor config level := by
  induction promoted generalizing s with
  | nil => simp
  | cons p promoted ih =>
    have hpush : (s.promote p).queues level =
        if level = p.2 then s.queues p.2 ++ [p.1.resetFor config p.2] else s.queues level :=
      push_apply s.queues p.2 level _
    rw [List.foldl_cons, ih, hpush]
    by_cases hlvl : level = p.2
    · subst hlvl
      simp
    · rw [if_neg hlvl, List.filter_cons_of_neg (by simpa using Ne.symm hlvl)]

def kept (now : Nat) (level : Fin config.priorityLevels) : List SchedulableTask :=
  if level.val = 0 then s.queues level
  else (s.queues level).filter fun task => !overdue config now task

theorem kept_eq_filter (now : Nat) (level : Fin config.priorityLevels) :
    s.kept now level = (s.queues level).filter fun task =>
      decide (level.val = 0) || !overdue config now task := by
  unfold kept
  split <;> next h => simp [h]

def raised (now : Nat) (level : Fin config.priorityLevels) : List SchedulableTask :=
  if h : level.val + 1 < config.priorityLevels then
    ((s.queues ⟨level.val + 1, h⟩).filter (overdue config now)).map
      (SchedulableTask.resetFor config level)
  else []

private theorem mem_drop_one_finRange {n : Nat} {i : Fin n} :
    i ∈ (List.finRange n).drop 1 ↔ i.val ≠ 0 := by
  cases n with
  | zero => exact i.elim0
  | succ =>
    rw [List.finRange_succ, List.drop_one, List.tail_cons, List.mem_map]
    constructor
    · rintro ⟨k, -, rfl⟩
      exact Nat.succ_ne_zero k.val
    · intro hi
      have hne : i ≠ 0 := fun h => hi (congrArg Fin.val h)
      exact ⟨i.pred hne, List.mem_finRange _, Fin.succ_pred i hne⟩

private theorem map_filter_promoted (tasks : List SchedulableTask)
    (above level : Fin config.priorityLevels) :
    ((tasks.map fun task => (task, above)).filter fun p => p.2 = level).map
        (fun p => p.1.resetFor config level) =
      if above = level then tasks.map (SchedulableTask.resetFor config level) else [] := by
  by_cases h : above = level <;> simp [List.filter_map, Function.comp_def, h]

theorem queues_performAging {now : Nat}
    (hlate : ¬now - s.lastAging < millis 1000) (level : Fin config.priorityLevels) :
    (s.performAging now).queues level = s.kept now level ++ s.raised now level := by
  have hnd : ((List.finRange config.priorityLevels).drop 1).Nodup :=
    List.Nodup.sublist (List.drop_sublist 1 _) (List.nodup_finRange _)
  rw [performAging, if_neg hlate, queues_promoteAll]
  congr 1
  · dsimp only
    rw [queues_ageQueues now hnd]
    simp only [mem_drop_one_finRange, kept]
    split_ifs <;> first | rfl | contradiction
  · rw [promotedTasks_ageQueues now hnd, List.nil_append, List.filter_flatMap,
      List.map_flatMap]
    simp only [map_filter_promoted]
    by_cases hbelow : level.val + 1 < config.priorityLevels
    · -- only the queue below has tasks for this level
      have hmem : (⟨level.val + 1, hbelow⟩ : Fin config.priorityLevels) ∈
          (List.finRange config.priorityLevels).drop 1 :=
        mem_drop_one_finRange.mpr (Nat.succ_ne_zero level.val)
      rw [raised, dif_pos hbelow, flatMap_eq_of_single hnd hmem]
      · exact if_pos (Fin.ext (Nat.add_sub_cancel level.val 1))
      · intro i hi hne
        apply if_neg
        intro habove
        have hval : i.val - 1 = level.val := congrArg Fin.val habove
        have hpos := mem_drop_one_finRange.mp hi
        exact hne (Fin.ext (by dsimp only; omega))
    · rw [raised, dif_neg hbelow, List.flatMap_eq_nil_iff]
      intro i hi
      apply if_neg
      intro habove
      have hval : i.val - 1 = level.val := congrArg Fin.val habove
      have hpos := mem_drop_one_finRange.mp hi
      have hlt := i.isLt
      omega

theorem perm_ageQueues (now : Nat) (levels : List (Fin config.priorityLevels)) (a : Aging config) :
    contents (levels.foldl (ageQueue now) a).queues ++
        (levels.foldl (ageQueue now) a).promotedTasks.map Prod.fst ~
      contents a.queues ++ a.promotedTasks.map Prod.fst := by
  induction levels generalizing a with
  | nil => exact List.Perm.refl _
  | cons level levels ih =>
    apply (ih (ageQueue now a level)).trans
    have htake := perm_contents_take a.queues level
      (List.filter_append_perm (overdue config now) (a.queues level))
    have hout : (ageQueue now a level).promotedTasks.map Prod.fst =
        a.promotedTasks.map Prod.fst ++ (a.queues level).filter (overdue config now) := by
      simp [ageQueue, Function.comp_def]
    rw [hout]
    calc contents (ageQueue now a level).queues ++
        (a.promotedTasks.map Prod.fst ++ (a.queues level).filter (overdue config now))
      _ ~ contents (ageQueue now a level).queues ++
          ((a.queues level).filter (overdue config now) ++ a.promotedTasks.map Prod.fst) :=
        List.Perm.append_left _ List.perm_append_comm
      _ = (contents (ageQueue now a level).queues ++
          (a.queues level).filter (overdue config now)) ++ a.promotedTasks.map Prod.fst :=
        (List.append_assoc _ _ _).symm
      _ ~ contents a.queues ++ a.promotedTasks.map Prod.fst := htake.append_right _

private theorem perm_promoteAll :
    (contents (promoted.foldl promote s).queues).map SchedulableTask.apartFromSlice ~
      (contents s.queues ++ promoted.map Prod.fst).map SchedulableTask.apartFromSlice := by
  induction promoted generalizing s with
  | nil => simp
  | cons p promoted ih =>
    have hpush := (perm_contents_push s.queues p.2 (p.1.resetFor config p.2)).map
      SchedulableTask.apartFromSlice
    rw [List.map_cons, SchedulableTask.apartFromSlice_resetFor] at hpush
    apply (ih (s.promote p)).trans
    simp only [List.map_append, List.map_cons]
    calc (contents (s.promote p).queues).map SchedulableTask.apartFromSlice ++
        (promoted.map Prod.fst).map SchedulableTask.apartFromSlice
      _ ~ p.1.apartFromSlice :: (contents s.queues).map SchedulableTask.apartFromSlice ++
          (promoted.map Prod.fst).map SchedulableTask.apartFromSlice := hpush.append_right _
      _ ~ (contents s.queues).map SchedulableTask.apartFromSlice ++ p.1.apartFromSlice ::
          (promoted.map Prod.fst).map SchedulableTask.apartFromSlice :=
        List.perm_middle.symm

theorem perm_performAging (now : Nat) :
    (contents (s.performAging now).queues).map SchedulableTask.apartFromSlice ~
      (contents s.queues).map SchedulableTask.apartFromSlice := by
  unfold performAging
  split
  · exact List.Perm.refl _
  · apply (perm_promoteAll _ _).trans
    apply List.Perm.map
    have haged := perm_ageQueues now ((List.finRange config.priorityLevels).drop 1)
      { queues := s.queues, promotedTasks := [] }
    rwa [List.map_nil, List.append_nil] at haged

theorem perm_ids_performAging (now : Nat) :
    (contents (s.performAging now).queues).map SchedulableTask.taskId ~
      (contents s.queues).map SchedulableTask.taskId := by
  have hperm := (s.perm_performAging now).map SchedulableTask.taskId
  rw [List.map_map, List.map_map] at hperm
  exact hperm

end

theorem Agrees.promoteAll (h : s.Agrees)
    {promoted : List (SchedulableTask × Fin config.priorityLevels)}
    (hdist : ((contents s.queues ++ promoted.map Prod.fst).map
      SchedulableTask.taskId).Nodup) : (promoted.foldl promote s).Agrees := by
  induction promoted generalizing s with
  | nil => exact h
  | cons p promoted ih =>
    have hid := SchedulableTask.taskId_resetFor config p.2 p.1
    -- the task comes before the others, after the queues
    have hmiddle : ((p.1 :: (contents s.queues ++ promoted.map Prod.fst)).map
        SchedulableTask.taskId).Nodup :=
      (List.perm_middle.map SchedulableTask.taskId).nodup_iff.mp hdist
    have hnew : (p.1.resetFor config p.2).taskId ∉
        (contents s.queues).map SchedulableTask.taskId := by
      rw [hid]
      intro hmem
      apply (List.nodup_cons.mp hmiddle).1
      rw [List.map_append]
      exact List.mem_append_left _ hmem
    have hpl := s.places_setLevel p.2 (p.1.resetFor config p.2)
    rw [hid] at hpl
    apply ih (h.place hpl hnew)
    have hpush := ((perm_contents_push s.queues p.2 (p.1.resetFor config p.2)).append_right
      (promoted.map Prod.fst)).map SchedulableTask.taskId
    apply hpush.nodup_iff.mpr
    rw [List.cons_append, List.map_cons, hid]
    exact hmiddle

theorem Agrees.performAging (h : s.Agrees) (now : Nat) : (s.performAging now).Agrees := by
  unfold MLFQScheduler.performAging
  split
  · exact h
  · have hnd : ((List.finRange config.priorityLevels).drop 1).Nodup :=
      List.Nodup.sublist (List.drop_sublist 1 _) (List.nodup_finRange _)
    have haged := perm_ageQueues now ((List.finRange config.priorityLevels).drop 1)
      { queues := s.queues, promotedTasks := [] }
    rw [List.map_nil, List.append_nil] at haged
    apply Agrees.promoteAll
    · refine h.shrink rfl fun level => ?_
      dsimp only
      rw [queues_ageQueues now hnd]
      split
      · exact List.filter_sublist
      · exact List.Sublist.refl _
    · exact (haged.map _).nodup_iff.mpr h.distinct

section

variable (s : MLFQScheduler config)

theorem isSome_lookup_setLevel (taskId : UInt64) (level : Fin config.priorityLevels)
    {other : UInt64} (h : (s.taskLookup.lookup other).isSome) :
    ((s.setLevel taskId level).taskLookup.lookup other).isSome := by
  have hget : (s.setLevel taskId level).taskLookup.lookup other =
      if other = taskId then some level else s.taskLookup.lookup other :=
    HashMap.lookup_insert_eq s.taskLookup taskId other level
  rw [hget]
  split
  · rfl
  · exact h

theorem isSome_lookup_performAging (now : Nat) (taskId : UInt64)
    (h : (s.taskLookup.lookup taskId).isSome) :
    ((s.performAging now).taskLookup.lookup taskId).isSome := by
  have hloop : ∀ (promoted : List (SchedulableTask × Fin config.priorityLevels))
      (t : MLFQScheduler config), (t.taskLookup.lookup taskId).isSome →
      ((promoted.foldl promote t).taskLookup.lookup taskId).isSome := by
    intro promoted
    induction promoted with
    | nil => exact fun t ht => ht
    | cons p promoted ih =>
      intro t ht
      exact ih _ (isSome_lookup_setLevel (t.pushBack p.2 _) p.1.taskId p.2 ht)
  unfold performAging
  split
  · exact h
  · exact hloop _ _ h

theorem mem_performAging (now : Nat) (h : task ∈ s.queues level) :
    task ∈ (s.performAging now).queues level ∨ level.val ≠ 0 ∧
      task.resetFor config (levelAbove level) ∈
        (s.performAging now).queues (levelAbove level) := by
  by_cases hearly : now - s.lastAging < millis 1000
  · rw [performAging, if_pos hearly]
    exact .inl h
  · by_cases hmoves : level.val ≠ 0 ∧ overdue config now task
    · obtain ⟨hlvl, hoverdue⟩ := hmoves
      refine .inr ⟨hlvl, ?_⟩
      have hval : (levelAbove level).val + 1 = level.val := Nat.sub_add_cancel (by omega)
      have hbelow : (levelAbove level).val + 1 < config.priorityLevels := hval ▸ level.isLt
      have hsource : (⟨(levelAbove level).val + 1, hbelow⟩ : Fin config.priorityLevels) =
          level := Fin.ext hval
      rw [queues_performAging s hearly, raised, dif_pos hbelow, hsource]
      apply List.mem_append_right
      exact List.mem_map_of_mem (List.mem_filter.mpr ⟨h, hoverdue⟩)
    · left
      rw [queues_performAging s hearly, kept_eq_filter]
      apply List.mem_append_left
      rw [not_and_or, not_not] at hmoves
      exact List.mem_filter.mpr ⟨h, by simpa using hmoves⟩

end

theorem order_performAging (h : s.Agrees) (now : Nat) (level : Fin config.priorityLevels) :
    (s.queues level).filter (fun task => task ∈ (s.performAging now).queues level) =
      ((s.performAging now).queues level).filter fun task => task ∈ s.queues level := by
  by_cases hearly : now - s.lastAging < millis 1000
  · rw [performAging, if_pos hearly]
  · rw [queues_performAging s hearly, List.filter_append]
    -- what comes up from below was not in the queue
    have hraise : ∀ task ∈ s.raised now level, task ∉ s.queues level := by
      intro task htask hqueue
      unfold raised at htask
      split at htask
      · next hbelow =>
        obtain ⟨below, hmem, rfl⟩ := List.mem_map.mp htask
        have hsame := (h.eq_of_taskId_eq hqueue (List.mem_of_mem_filter hmem)
          (SchedulableTask.taskId_resetFor config level below)).2
        have hval : level.val = level.val + 1 := congrArg Fin.val hsame
        omega
      · cases htask
    have hnone : (s.raised now level).filter (fun task => task ∈ s.queues level) = [] :=
      List.filter_eq_nil_iff.mpr fun task htask => by simpa using hraise task htask
    have hall : (s.kept now level).filter (fun task => task ∈ s.queues level) =
        s.kept now level := by
      rw [kept_eq_filter]
      exact List.filter_eq_self.mpr fun task htask => by
        simpa using List.mem_of_mem_filter htask
    rw [hnone, hall, List.append_nil, kept_eq_filter]
    apply List.filter_congr
    intro task htask
    have hnot : task ∉ s.raised now level := fun hmem => hraise task hmem htask
    simp [htask, hnot]

/-! ### Work stealing -/

private theorem perm_last {tasks : List SchedulableTask}
    (h : tasks.getLast? = some task) : [task] ++ tasks.dropLast ~ tasks := by
  apply List.perm_append_comm.trans
  rw [List.dropLast_append_getLast? task h]

theorem perm_steal (s : MLFQScheduler config) (i j : Fin config.priorityLevels) :
    contents (s.steal i j).2.queues ~ contents s.queues := by
  unfold steal
  split
  · exact List.Perm.refl _
  · next task hlast =>
    apply (perm_contents_push _ j task).trans
    exact (List.perm_append_singleton task _).symm.trans
      (perm_contents_take s.queues i (perm_last hlast))

theorem Agrees.steal (h : s.Agrees)
    (i j : Fin config.priorityLevels) : (s.steal i j).2.Agrees := by
  unfold MLFQScheduler.steal
  split
  · exact h
  · next task hlast =>
    have hrest : Agrees { s with queues := Function.update s.queues i (s.queues i).dropLast } :=
      h.shrink rfl (update_sublist (List.dropLast_sublist _))
    -- the task is no longer in a queue
    have hperm := ((List.perm_append_singleton task _).symm.trans
      (perm_contents_take s.queues i (perm_last hlast))).map SchedulableTask.taskId
    have hnd := hperm.nodup_iff.mpr h.distinct
    exact hrest.place (places_setLevel _ j task) (List.nodup_cons.mp hnd).1

def overloaded (s : MLFQScheduler config) (i : Fin config.priorityLevels) : Bool :=
  decide ((s.queues i).length > config.workStealThreshold)

/-- The queue that gets the stolen tasks: the first one with less than half as many tasks as
the threshold. -/
def receiver (s : MLFQScheduler config) : Option (Fin config.priorityLevels) :=
  (List.finRange config.priorityLevels).find? fun j =>
    decide ((s.queues j).length < config.workStealThreshold / 2)

variable {j : Fin config.priorityLevels}

private theorem length_receiver_lt
    (h : s.receiver = some j) : (s.queues j).length < config.workStealThreshold / 2 := by
  simpa using List.find?_some h

theorem overloaded_receiver (h : s.receiver = some j) : s.overloaded j = false := by
  have hlt := length_receiver_lt h
  rw [overloaded, decide_eq_false_iff_not]
  omega

private theorem find_eq_receiver (h : s.overloaded i) :
    (List.finRange config.priorityLevels).find? (fun j => decide (i ≠ j) &&
      decide ((s.queues j).length < config.workStealThreshold / 2)) = s.receiver := by
  unfold receiver
  congr 1
  funext j
  by_cases hij : i = j
  · subst hij
    rw [overloaded, decide_eq_true_iff] at h
    have hnot : ¬(s.queues i).length < config.workStealThreshold / 2 := by omega
    simp [hnot]
  · simp [hij]

theorem steal_fst (s : MLFQScheduler config) (i j : Fin config.priorityLevels) :
    (s.steal i j).1 = (s.queues i).getLast? := by
  unfold steal
  split <;> simp_all

theorem queues_steal (s : MLFQScheduler config) (hij : i ≠ j) (level : Fin config.priorityLevels) :
    (s.steal i j).2.queues level =
      if level = j then s.queues j ++ (s.queues i).getLast?.toList
      else if level = i then (s.queues i).dropLast else s.queues level := by
  unfold steal
  split
  · next hlast =>
    rw [List.getLast?_eq_none_iff] at hlast
    split_ifs with hj hi
    · simp [hlast, hj]
    · simp [hlast, hi]
    · rfl
  · next task hlast =>
    have hpush := push_apply (Function.update s.queues i (s.queues i).dropLast) j level task
    rw [Function.update_of_ne (Ne.symm hij), Function.update_apply] at hpush
    rw [hlast]
    exact hpush

/-- Steals one task from each of some queues: the tasks, and the scheduler. -/
def stealFrom (j : Fin config.priorityLevels) :
    List (Fin config.priorityLevels) → MLFQScheduler config →
      List SchedulableTask × MLFQScheduler config
  | [], s => ([], s)
  | i :: is, s =>
    let (task, s) := s.steal i j
    let (tasks, s) := stealFrom j is s
    (task.toList ++ tasks, s)

private theorem stealLoop_eq (s : MLFQScheduler config) (is : List (Fin config.priorityLevels))
    (t : MLFQScheduler config) :
    stealLoop (fun level => (s.queues level).length) is t =
      match s.receiver with
      | some j => stealFrom j (is.filter s.overloaded) t
      | none => ([], t) := by
  induction is generalizing t with
  | nil => cases s.receiver <;> rfl
  | cons i is ih =>
    by_cases hover : s.overloaded i
    · have hsize : (s.queues i).length > config.workStealThreshold := of_decide_eq_true hover
      rw [stealLoop, if_pos hsize, find_eq_receiver hover, List.filter_cons_of_pos hover]
      cases hj : s.receiver with
      | none => simpa [hj] using ih t
      | some =>
        simp only [hj] at ih
        simp only [stealFrom, ih]
    · have hsize : ¬(s.queues i).length > config.workStealThreshold :=
        fun hlt => hover (decide_eq_true hlt)
      rw [stealLoop, if_neg hsize, List.filter_cons_of_neg hover]
      exact ih t

theorem performWorkStealing_eq (s : MLFQScheduler config) :
    s.performWorkStealing =
      if config.enableWorkStealing then
        match s.receiver with
        | some j => stealFrom j ((List.finRange config.priorityLevels).filter s.overloaded) s
        | none => ([], s)
      else ([], s) := by
  rw [performWorkStealing, stealLoop_eq]

theorem perm_stealFrom (j : Fin config.priorityLevels) (is : List (Fin config.priorityLevels))
    (s : MLFQScheduler config) : contents (stealFrom j is s).2.queues ~ contents s.queues := by
  induction is generalizing s with
  | nil => exact List.Perm.refl _
  | cons i is ih => exact (ih _).trans (perm_steal s i j)

theorem Agrees.stealFrom (h : s.Agrees)
    (j : Fin config.priorityLevels) (is : List (Fin config.priorityLevels)) :
    (MLFQScheduler.stealFrom j is s).2.Agrees := by
  induction is generalizing s with
  | nil => exact h
  | cons i is ih => exact ih (h.steal i j)

variable {is : List (Fin config.priorityLevels)}

theorem stealFrom_fst (hnd : is.Nodup) (hj : j ∉ is) (s : MLFQScheduler config) :
    (stealFrom j is s).1 = is.flatMap fun i => (s.queues i).getLast?.toList := by
  induction is generalizing s with
  | nil => rfl
  | cons i is ih =>
    obtain ⟨hi, hrest⟩ := List.nodup_cons.mp hnd
    obtain ⟨hji, hjrest⟩ := not_or.mp (List.mem_cons.not.mp hj)
    simp only [stealFrom, steal_fst, ih hrest hjrest, List.flatMap_cons]
    congr 1
    apply List.flatMap_congr
    intro k hk
    -- a queue that is still to come has lost and gained nothing
    have hkj : k ≠ j := fun h => hjrest (h ▸ hk)
    have hki : k ≠ i := fun h => hi (h ▸ hk)
    rw [queues_steal s (Ne.symm hji), if_neg hkj, if_neg hki]

theorem queues_stealFrom (hnd : is.Nodup) (hj : j ∉ is) (s : MLFQScheduler config)
    (level : Fin config.priorityLevels) :
    (stealFrom j is s).2.queues level =
      if level = j then s.queues j ++ (stealFrom j is s).1
      else if level ∈ is then (s.queues level).dropLast else s.queues level := by
  induction is generalizing s with
  | nil => by_cases hlvl : level = j <;> simp [stealFrom, hlvl]
  | cons i is ih =>
    obtain ⟨hi, hrest⟩ := List.nodup_cons.mp hnd
    obtain ⟨hji, hjrest⟩ := not_or.mp (List.mem_cons.not.mp hj)
    simp only [stealFrom, steal_fst, ih hrest hjrest, queues_steal s (Ne.symm hji)]
    by_cases hlvl : level = j
    · simp [hlvl]
    · by_cases hli : level = i
      · subst hli
        simp [hlvl, hi]
      · simp [hlvl, hli]

theorem receiver_notMem_overloaded (h : s.receiver = some j) :
    j ∉ (List.finRange config.priorityLevels).filter s.overloaded := by
  simp [overloaded_receiver h]

theorem nodup_overloaded (s : MLFQScheduler config) :
    ((List.finRange config.priorityLevels).filter s.overloaded).Nodup :=
  List.Nodup.sublist List.filter_sublist (List.nodup_finRange _)

theorem perm_performWorkStealing (s : MLFQScheduler config) :
    contents s.performWorkStealing.2.queues ~ contents s.queues := by
  rw [performWorkStealing_eq]
  split
  · split
    · exact perm_stealFrom _ _ s
    · exact List.Perm.refl _
  · exact List.Perm.refl _

theorem Agrees.performWorkStealing (h : s.Agrees) : s.performWorkStealing.2.Agrees := by
  rw [performWorkStealing_eq]
  split
  · split
    · exact h.stealFrom _ _
    · exact h
  · exact h

variable (s : MLFQScheduler config)

private theorem isSome_lookup_steal (i j : Fin config.priorityLevels)
    {taskId : UInt64} (h : (s.taskLookup.lookup taskId).isSome) :
    ((s.steal i j).2.taskLookup.lookup taskId).isSome := by
  unfold steal
  split
  · exact h
  · exact isSome_lookup_setLevel _ _ _ h

theorem isSome_lookup_performWorkStealing (taskId : UInt64)
    (h : (s.taskLookup.lookup taskId).isSome) :
    (s.performWorkStealing.2.taskLookup.lookup taskId).isSome := by
  have hloop : ∀ (j : Fin config.priorityLevels) (is : List (Fin config.priorityLevels))
      (t : MLFQScheduler config), (t.taskLookup.lookup taskId).isSome →
      ((stealFrom j is t).2.taskLookup.lookup taskId).isSome := by
    intro j is
    induction is with
    | nil => exact fun t ht => ht
    | cons i is ih =>
      exact fun t ht => ih _ (isSome_lookup_steal t i j ht)
  rw [performWorkStealing_eq]
  split
  · split
    · exact hloop _ _ _ h
    · exact h
  · exact h

private theorem sublist_performWorkStealing : s.performWorkStealing.1 <+ contents s.queues := by
  have hlast : ∀ i, (s.queues i).getLast?.toList <+ s.queues i := by
    intro i
    cases hi : (s.queues i).getLast? with
    | none => exact List.nil_sublist _
    | some => exact List.singleton_sublist.mpr (List.mem_of_getLast? hi)
  rw [performWorkStealing_eq]
  split
  · split
    · next j hj =>
      rw [stealFrom_fst s.nodup_overloaded (receiver_notMem_overloaded hj)]
      exact (List.Sublist.flatMap_right _ fun i _ => hlast i).trans
        (List.filter_sublist.flatMap s.queues)
    · exact List.nil_sublist _
  · exact List.nil_sublist _

/-- Aging and work stealing only move tasks.  Where identifiers are distinct and the lookup
table has the levels of the queued tasks, both keep this, and the queued tasks apart from time
slices.  Aging leaves a task in its queue or takes it one level up, and keeps the order of
those that stay; stealing moves no task twice. -/
theorem aging_and_stealing_move (s : MLFQScheduler config) (h : s.Agrees) (now : Nat) :
    ((s.performAging now).Agrees ∧
      ((contents (s.performAging now).queues).map SchedulableTask.apartFromSlice ~
        (contents s.queues).map SchedulableTask.apartFromSlice) ∧
      (∀ level, ∀ task ∈ s.queues level,
        task ∈ (s.performAging now).queues level ∨ level.val ≠ 0 ∧
          task.resetFor config (levelAbove level) ∈
            (s.performAging now).queues (levelAbove level)) ∧
      ∀ level,
        (s.queues level).filter (fun task => task ∈ (s.performAging now).queues level) =
          ((s.performAging now).queues level).filter fun task => task ∈ s.queues level) ∧
    (s.performWorkStealing.2.Agrees ∧
      (contents s.performWorkStealing.2.queues ~ contents s.queues) ∧
      (s.performWorkStealing.1.map SchedulableTask.taskId).Nodup) := by
  constructor
  · exact ⟨h.performAging now, s.perm_performAging now,
      fun level task htask => s.mem_performAging now htask,
      fun level => order_performAging h now level⟩
  · exact ⟨h.performWorkStealing, s.perm_performWorkStealing,
      List.Nodup.sublist (s.sublist_performWorkStealing.map _) h.distinct⟩

/-- Two queues for one task each. -/
def twoLevels : SchedulerConfig :=
  { SchedulerConfig.default with priorityLevels := 2, maxTasksPerQueue := 1 }

/-- Three queues, from which a third task can be stolen. -/
def threeLevels : SchedulerConfig :=
  { SchedulerConfig.default with priorityLevels := 3, workStealThreshold := 2 }

/-- One task waits at level 0 and three at level 1, of which the first is two seconds old. -/
def crowded : MLFQScheduler threeLevels :=
  let tasks : List (Fin threeLevels.priorityLevels × SchedulableTask) :=
    [(⟨0, by decide⟩, .new 4 100 255 0), (⟨1, by decide⟩, .new 7 101 100 0),
      (⟨1, by decide⟩, .new 8 102 100 (millis 2000)),
      (⟨1, by decide⟩, .new 9 103 100 (millis 2000))]
  tasks.foldl (fun s (level, task) => (s.pushBack level task).setLevel task.taskId level)
    (new threeLevels 0)

private theorem agrees_crowded : crowded.Agrees where
  distinct := by decide
  lookup := by decide

/-- The old task goes up, and the last one is stolen. -/
theorem aging_and_stealing_move_crowded :
    let aged := crowded.performAging (millis 2000)
    let stolen := crowded.performWorkStealing
    ((aged.queues ⟨0, by decide⟩).map SchedulableTask.taskId = [4, 7] ∧ aged.Agrees) ∧
      stolen.1.map SchedulableTask.taskId = [9] ∧ stolen.2.Agrees :=
  ⟨⟨by decide, (aging_and_stealing_move crowded agrees_crowded (millis 2000)).1.1⟩, by decide,
    (aging_and_stealing_move crowded agrees_crowded (millis 2000)).2.1⟩

end MLFQScheduler

end Kaelix.Core.Multiplexing
