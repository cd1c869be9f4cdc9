import Kaelix.Core.Plugin.Hooks

/-!
# The order of plugin hooks

What the manager is for is the list of the live registrations, in the order of their arrival:
those of plugins that were not unregistered since.  The hooks at a point are the live ones of that
point, sorted stably by priority, and the points of a plugin are those of its live ones, one for
each.

`execute_hooks` runs the hooks up to the first that stops or fails.  But it also divides by the
number of all executions so far, as a `u32`.
-/

namespace Kaelix.Core.Plugin

open Lib

variable {Message Context World : Type}

def priorityOf (reg : HookRegistration Message Context World) : Int := reg.priority.value.toInt

/-- The calls of a manager. -/
inductive Call (Message Context World : Type) where
  | register (registration : HookRegistration Message Context World)
  | unregister (pluginId : PluginId)
  | execute (hookPoint : HookPoint) (message : Message) (context : Context) (world : World)

namespace Call

/-- What a call makes of the manager. -/
def apply (m : HookManager Message Context World) :
    Call Message Context World → HookManager Message Context World
  | .register registration => m.registerHook registration
  | .unregister pluginId => (m.unregisterPluginHooks pluginId).2
  | .execute hookPoint message context world =>
    { m with metrics := (m.executeHooks hookPoint message context world).metrics }

/-- What a call makes of the registrations in force. -/
def live (regs : List (HookRegistration Message Context World)) :
    Call Message Context World → List (HookRegistration Message Context World)
  | .register registration => regs ++ [registration]
  | .unregister pluginId => regs.filter (·.pluginId ≠ pluginId)
  | .execute .. => regs

end Call

section

variable (calls : List (Call Message Context World))

/-- The manager after the calls. -/
def managerAfter : HookManager Message Context World :=
  calls.foldl Call.apply .new

/-- The registrations in force, in the order they came. -/
def liveAfter : List (HookRegistration Message Context World) :=
  calls.foldl Call.live []

end

section

variable (regs : List (HookRegistration Message Context World))

/-- Those at a point. -/
def atPoint (hookPoint : HookPoint) : List (HookRegistration Message Context World) :=
  regs.filter (·.hookPoint = hookPoint)

/-- Those of a plugin. -/
def ofPlugin (pluginId : PluginId) : List (HookRegistration Message Context World) :=
  regs.filter (·.pluginId = pluginId)

/-- No hook runs after this result. -/
def ends : Except String (HookResult Message Context) → Bool
  | .ok .stop => true
  | .ok _ => false
  | .error _ => true

/-- The hooks that should be run: up to and including the first that stops or fails. -/
def toRun (message : Message) (context : Context) (world : World) :
    List (HookRegistration Message Context World) →
      List (HookRegistration Message Context World)
  | [] => []
  | registration :: rest =>
    let (result, _, world) := registration.hook message context world
    if ends result then [registration]
    else registration :: toRun message context world rest

/-! ## Bookkeeping -/

/-- The hooks of every point are the live ones of that point in their order. -/
def Sorted (hooks : HashMap HookPoint (List (HookRegistration Message Context World)))
    (regs : List (HookRegistration Message Context World)) : Prop :=
  ∀ hookPoint, StablySorted priorityOf (atPoint regs hookPoint)
    ((hooks.lookup hookPoint).getD [])

/-- Those left when a plugin leaves some points. -/
def without (pluginId : PluginId)
    (points : List HookPoint) : List (HookRegistration Message Context World) :=
  regs.filter fun reg => ¬ (reg.pluginId = pluginId ∧ reg.hookPoint ∈ points)

end

variable {hooks : HashMap HookPoint (List (HookRegistration Message Context World))}
  {regs : List (HookRegistration Message Context World)}

private theorem atPoint_without (pluginId : PluginId) (points : List HookPoint)
    (hookPoint : HookPoint) :
    atPoint (without regs pluginId points) hookPoint =
      if hookPoint ∈ points then (atPoint regs hookPoint).filter (·.pluginId ≠ pluginId)
      else atPoint regs hookPoint := by
  rw [atPoint, without, atPoint, List.filter_filter]
  split
  · next hmem =>
      rw [List.filter_filter]
      apply List.filter_congr
      intro reg _
      by_cases hpoint : reg.hookPoint = hookPoint
      · simp [hpoint, hmem]
      · simp [hpoint]
  · next hmem =>
      apply List.filter_congr
      intro reg _
      by_cases hpoint : reg.hookPoint = hookPoint
      · simp [hpoint, hmem]
      · simp [hpoint]

section

variable (regs : List (HookRegistration Message Context World))

private theorem length_without (pluginId : PluginId) (hookPoint : HookPoint) :
    regs.length = (without regs pluginId [hookPoint]).length +
      (ofPlugin (atPoint regs hookPoint) pluginId).length := by
  have hsplit := List.length_eq_length_filter_add (l := regs) fun reg =>
    decide ¬ (reg.pluginId = pluginId ∧ reg.hookPoint ∈ [hookPoint])
  rw [ofPlugin, atPoint, List.filter_filter, without]
  simpa [Bool.and_comm] using hsplit

theorem length_retained (pluginId : PluginId) :
    regs.length = (regs.filter (·.pluginId ≠ pluginId)).length +
      (ofPlugin regs pluginId).length := by
  simpa [ofPlugin] using List.length_eq_length_filter_add (l := regs) (·.pluginId ≠ pluginId)

end

theorem Sorted.retainOthers (h : Sorted hooks regs) (pluginId : PluginId) (hookPoint : HookPoint)
    (count : Nat) :
    Sorted (HookManager.retainOthers pluginId (hooks, count) hookPoint).1
        (without regs pluginId [hookPoint]) ∧
      (HookManager.retainOthers pluginId (hooks, count) hookPoint).2 +
        (without regs pluginId [hookPoint]).length = count + regs.length := by
  have hlen := length_without regs pluginId hookPoint
  have hperm := (h hookPoint).perm
  rw [HookManager.retainOthers]
  cases hget : hooks.lookup hookPoint with
  | none =>
    -- no hooks there, so none of the plugin
    rw [hget, Option.getD_none, List.nil_perm] at hperm
    rw [hperm, ofPlugin, List.filter_nil, List.length_nil, Nat.add_zero] at hlen
    have hsame : without regs pluginId [hookPoint] = regs :=
      List.filter_sublist.eq_of_length hlen.symm
    rw [hsame]
    exact ⟨h, rfl⟩
  | some details =>
    rw [hget, Option.getD_some] at hperm
    refine ⟨fun point => ?_, ?_⟩
    · rw [atPoint_without, HashMap.lookup_insert_eq]
      by_cases hpoint : point = hookPoint
      · have hsort := h hookPoint
        rw [hget, Option.getD_some] at hsort
        simpa [hpoint] using hsort.filter (·.pluginId ≠ pluginId)
      · simpa [hpoint] using h point
    · have hretained := length_retained details pluginId
      have hcnt : (ofPlugin details pluginId).length =
          (ofPlugin (atPoint regs hookPoint) pluginId).length := (hperm.filter _).length_eq
      dsimp only
      omega

theorem Sorted.foldl_retainOthers (h : Sorted hooks regs) (pluginId : PluginId)
    (points : List HookPoint) (count : Nat) :
    Sorted (points.foldl (HookManager.retainOthers pluginId) (hooks, count)).1
        (without regs pluginId points) ∧
      (points.foldl (HookManager.retainOthers pluginId) (hooks, count)).2 +
        (without regs pluginId points).length = count + regs.length := by
  induction points generalizing hooks regs count with
  | nil =>
    have hsame : without regs pluginId [] = regs := by simp [without]
    rw [hsame]
    exact ⟨h, rfl⟩
  | cons point points ih =>
    obtain ⟨hsort, hcnt⟩ := h.retainOthers pluginId point count
    obtain ⟨hsort', hcnt'⟩ := ih hsort
      (HookManager.retainOthers pluginId (hooks, count) point).2
    have hboth : without (without regs pluginId [point]) pluginId points =
        without regs pluginId (point :: points) := by
      rw [without, without, without, List.filter_filter]
      apply List.filter_congr
      intro reg _
      by_cases hplug : reg.pluginId = pluginId
      · simp [hplug, Bool.and_comm]
      · simp [hplug]
    rw [hboth] at hsort' hcnt'
    exact ⟨hsort', hcnt'.trans hcnt⟩

/-- The manager holds exactly these registrations. -/
structure Tracks (m : HookManager Message Context World)
    (regs : List (HookRegistration Message Context World)) : Prop where
  sorted : Sorted m.hooks regs
  points : ∀ pluginId, (m.pluginHooks.lookup pluginId).getD [] =
    (ofPlugin regs pluginId).map (·.hookPoint)
  average : m.metrics.avgExecutionTime < 2 ^ 32 * 1000000000

variable {m : HookManager Message Context World}

theorem tracks_new : Tracks (.new : HookManager Message Context World) [] :=
  ⟨fun _ => stablySorted_nil, fun _ => rfl, by show 0 < _; decide⟩

private theorem hooks_registerHook (registration : HookRegistration Message Context World) :
    (m.registerHook registration).hooks = AList.insert registration.hookPoint
      (sortByKey priorityOf (m.hookDetails registration.hookPoint ++ [registration])) m.hooks :=
  rfl

theorem Tracks.registerHook (h : Tracks m regs)
    (registration : HookRegistration Message Context World) :
    Tracks (m.registerHook registration) (regs ++ [registration]) where
  sorted point := by
    rw [hooks_registerHook, HashMap.lookup_insert_eq, atPoint, List.filter_append]
    by_cases hpoint : point = registration.hookPoint
    · have hconcat := (h.sorted registration.hookPoint).concat registration
      simpa [hpoint, atPoint, HookManager.hookDetails] using hconcat
    · simpa [hpoint, Ne.symm hpoint, atPoint] using h.sorted point
  points pluginId := by
    rw [HookManager.registerHook, HashMap.lookup_insert_eq, ofPlugin, List.filter_append]
    by_cases hplug : pluginId = registration.pluginId
    · simpa [hplug, ofPlugin] using h.points registration.pluginId
    · simpa [hplug, Ne.symm hplug, ofPlugin] using h.points pluginId
  average := h.average

private theorem without_all (regs : List (HookRegistration Message Context World))
    (pluginId : PluginId) :
    without regs pluginId ((ofPlugin regs pluginId).map (·.hookPoint)) =
      regs.filter (·.pluginId ≠ pluginId) := by
  apply List.filter_congr
  intro reg hreg
  by_cases hplug : reg.pluginId = pluginId
  · have hmem : reg.hookPoint ∈ (ofPlugin regs pluginId).map (·.hookPoint) :=
      List.mem_map_of_mem (by simp [ofPlugin, hreg, hplug])
    simp only [hplug, hmem]
    simp
  · simp [hplug]

theorem Tracks.unregisterPluginHooks (h : Tracks m regs) (pluginId : PluginId) :
    (m.unregisterPluginHooks pluginId).1 = (ofPlugin regs pluginId).length ∧
      Tracks (m.unregisterPluginHooks pluginId).2 (regs.filter (·.pluginId ≠ pluginId)) := by
  have hloop := h.sorted.foldl_retainOthers pluginId
    ((ofPlugin regs pluginId).map (·.hookPoint)) 0
  rw [without_all, ← h.points pluginId] at hloop
  have hlen := length_retained regs pluginId
  refine ⟨?_, hloop.1, fun plugin => ?_, h.average⟩
  · have hcnt := hloop.2
    rw [HookManager.unregisterPluginHooks]
    dsimp only
    omega
  · rw [HookManager.unregisterPluginHooks, ofPlugin, List.filter_filter]
    dsimp only
    rw [HashMap.lookup_erase_eq]
    by_cases hplug : plugin = pluginId
    · simp [hplug]
    · rw [if_neg hplug, h.points plugin, ofPlugin]
      congr 1
      apply List.filter_congr
      intro reg _
      by_cases hreg : reg.pluginId = plugin
      · simp [hreg, hplug]
      · simp [hreg]

/-! ## Executions -/

/-- None of the executions but the last comes at a multiple of `2 ^ 32`, after `total` earlier
ones. -/
def Unbroken (total length : Nat) : Prop := ∀ i, 0 < i → i < length → (total + i) % 2 ^ 32 ≠ 0

theorem unbroken_one (total : Nat) : Unbroken total 1 := by
  intro i hpos hlt
  omega

theorem unbroken_succ (total length : Nat) :
    Unbroken total (length + 1) ↔
      (0 < length → (total + 1) % 2 ^ 32 ≠ 0) ∧ Unbroken (total + 1) length := by
  constructor
  · intro h
    refine ⟨fun hpos => h 1 (by omega) (by omega), fun i hpos hlt => ?_⟩
    have hnext := h (i + 1) (by omega) (by omega)
    rwa [show total + 1 + i = total + (i + 1) by omega]
  · intro h i hpos hlt
    by_cases hone : i = 1
    · rw [hone]
      exact h.1 (by omega)
    · have hnext := h.2 (i - 1) (by omega) (by omega)
      rwa [show total + 1 + (i - 1) = total + i by omega] at hnext

private theorem nextAverage_eq {avg n duration : Nat} (havg : avg < 2 ^ 32 * 1000000000)
    (hn : n < 2 ^ 32) (hduration : duration < 2 ^ 32 * 1000000000) (d : Nat) :
    nextAverage avg n duration d =
      if d = 0 then .error ⟨"divide by zero error when dividing duration by scalar"⟩
      else .ok ((avg * n + duration) / d) := by
  have hmul : avg * n ≤ (2 ^ 32 * 1000000000 - 1) * (2 ^ 32 - 1) :=
    Nat.mul_le_mul (by omega) (by omega)
  rw [nextAverage, maxDuration, if_neg (by omega), if_neg (by omega)]

private theorem average_lt {avg n duration bound : Nat} (havg : avg < bound)
    (hduration : duration < bound) : (avg * n + duration) / (n + 1) < bound := by
  rw [Nat.div_lt_iff_lt_mul (Nat.succ_pos n), Nat.mul_succ]
  exact Nat.add_lt_add_of_le_of_lt (Nat.mul_le_mul_right n havg.le) hduration

section

variable {metrics : HookManagerMetrics}

@[simp] theorem totalExecutions_recordExecution (duration : Elapsed) (success : Bool) :
    (metrics.recordExecution duration success).1.totalExecutions =
      metrics.totalExecutions + 1 := by
  rw [HookManagerMetrics.recordExecution]
  cases success <;> dsimp only [Bool.false_eq_true, if_true, if_false] <;> split <;> rfl

theorem recordExecution_spec (havg : metrics.avgExecutionTime < 2 ^ 32 * 1000000000)
    (duration : Elapsed) (success : Bool) :
    (metrics.recordExecution duration success).1.avgExecutionTime < 2 ^ 32 * 1000000000 ∧
      ((metrics.recordExecution duration success).2 = .ok () ↔
        (metrics.totalExecutions + 1) % 2 ^ 32 ≠ 0) := by
  have hn : metrics.totalExecutions % 2 ^ 32 < 2 ^ 32 := Nat.mod_lt _ (by decide)
  have hnext := nextAverage_eq havg hn duration.isLt ((metrics.totalExecutions + 1) % 2 ^ 32)
  by_cases hzero : (metrics.totalExecutions + 1) % 2 ^ 32 = 0
  · rw [if_pos hzero, hzero] at hnext
    cases success <;>
      simp only [HookManagerMetrics.recordExecution, Nat.add_sub_cancel, Bool.false_eq_true,
        if_true, if_false, hnext, hzero, havg, ne_eq, not_true, reduceCtorEq, and_self]
  · rw [if_neg hzero] at hnext
    have hsucc : (metrics.totalExecutions + 1) % 2 ^ 32 =
        metrics.totalExecutions % 2 ^ 32 + 1 := by omega
    have hlt := average_lt (n := metrics.totalExecutions % 2 ^ 32) havg duration.isLt
    rw [← hsucc] at hlt
    cases success <;>
      simp only [HookManagerMetrics.recordExecution, Nat.add_sub_cancel, Bool.false_eq_true,
        if_true, if_false, hnext, hzero, hlt, ne_eq, not_false_eq_true, and_self]

end

section

variable (hookPoint : HookPoint) (message : Message) (context : Context) (world : World)
  (results : List (HookResult Message Context)) (metrics : HookManagerMetrics)
  (registration : HookRegistration Message Context World)
  (rest : List (HookRegistration Message Context World))

/-- The metrics after one more hook. -/
def recordHook : HookManagerMetrics × Except Panic Unit :=
  metrics.recordExecution (registration.hook message context world).2.1
    (registration.hook message context world).1.isOk

variable {message context world metrics registration}

theorem executeLoop_of_ends
    (h : (recordHook message context world metrics registration).2 = .ok () →
      ends (registration.hook message context world).1) :
    let execution := executeLoop hookPoint message context metrics world results
      (registration :: rest)
    execution.run = [registration] ∧
      execution.metrics = (recordHook message context world metrics registration).1 := by
  rw [executeLoop, recordHook]
  rw [recordHook] at h
  generalize registration.hook message context world = ran at h ⊢
  obtain ⟨result, elapsed, world'⟩ := ran
  cases result with
  | error =>
    rcases hrec : metrics.recordExecution elapsed false with ⟨after, outcome⟩
    cases outcome <;> simp [Except.isOk, Except.toBool, hrec]
  | ok result =>
    rcases hrec : metrics.recordExecution elapsed true with ⟨after, outcome⟩
    cases outcome <;> cases result <;> simp_all [Except.isOk, Except.toBool, ends]

private theorem executeLoop_of_not_ends
    (hok : (recordHook message context world metrics registration).2 = .ok ())
    (hends : ¬ ends (registration.hook message context world).1) :
    ∃ results',
      let execution := executeLoop hookPoint message context metrics world results
        (registration :: rest)
      let later := executeLoop hookPoint message context
        (recordHook message context world metrics registration).1
        (registration.hook message context world).2.2 results' rest
      execution.run = registration :: later.run ∧ execution.metrics = later.metrics := by
  rw [executeLoop, recordHook]
  rw [recordHook] at hok
  generalize registration.hook message context world = ran at hok hends ⊢
  obtain ⟨result, elapsed, world'⟩ := ran
  cases result with
  | error => simp [ends] at hends
  | ok result =>
    refine ⟨results ++ [result], ?_⟩
    rcases hrec : metrics.recordExecution elapsed true with ⟨after, outcome⟩
    cases result <;> simp_all [Except.isOk, Except.toBool, ends]

variable (message context world)

variable (havg : metrics.avgExecutionTime < 2 ^ 32 * 1000000000)
include havg

variable (regs : List (HookRegistration Message Context World))

theorem executeLoop_metrics :
    let execution := executeLoop hookPoint message context metrics world results regs
    execution.metrics.totalExecutions = metrics.totalExecutions + execution.run.length ∧
      execution.metrics.avgExecutionTime < 2 ^ 32 * 1000000000 := by
  dsimp only
  induction regs generalizing metrics world results with
  | nil => exact ⟨rfl, havg⟩
  | cons registration rest ih =>
    have hafter : (recordHook message context world metrics registration).1.avgExecutionTime <
        2 ^ 32 * 1000000000 := (recordExecution_spec havg _ _).1
    have htot : (recordHook message context world metrics registration).1.totalExecutions =
        metrics.totalExecutions + 1 := totalExecutions_recordExecution _ _
    by_cases hends : (recordHook message context world metrics registration).2 = .ok () →
        ends (registration.hook message context world).1
    · have hlast := executeLoop_of_ends hookPoint results rest hends
      rw [hlast.1, hlast.2]
      exact ⟨htot, hafter⟩
    · push Not at hends
      obtain ⟨results', hrun, hmet⟩ := executeLoop_of_not_ends hookPoint results rest
        hends.1 hends.2
      have hlater := ih (registration.hook message context world).2.2 results' hafter
      rw [hrun, hmet, List.length_cons, hlater.1, htot]
      exact ⟨by omega, hlater.2⟩

theorem executeLoop_run_iff :
    (executeLoop hookPoint message context metrics world results regs).run =
        toRun message context world regs ↔
      Unbroken metrics.totalExecutions (toRun message context world regs).length := by
  induction regs generalizing metrics world results with
  | nil => simp [executeLoop, toRun, Unbroken]
  | cons registration rest ih =>
    have hspec := recordExecution_spec havg (registration.hook message context world).2.1
      (registration.hook message context world).1.isOk
    by_cases hends : ends (registration.hook message context world).1
    · have hlast := executeLoop_of_ends hookPoint results rest
        (show (recordHook message context world metrics registration).2 = .ok () → _
          from fun _ => hends)
      have hsingle : toRun message context world (registration :: rest) = [registration] := by
        simp [toRun, hends]
      rw [hlast.1, hsingle]
      simpa using unbroken_one metrics.totalExecutions
    · have hcons : toRun message context world (registration :: rest) = registration ::
          toRun message context (registration.hook message context world).2.2 rest := by
        simp [toRun, hends]
      rw [hcons, List.length_cons, unbroken_succ]
      by_cases hok : (recordHook message context world metrics registration).2 = .ok ()
      · obtain ⟨results', hrun, _⟩ := executeLoop_of_not_ends hookPoint results rest hok hends
        have hlater := ih (registration.hook message context world).2.2 results' hspec.1
        rw [totalExecutions_recordExecution] at hlater
        rw [hrun, List.cons_inj_right, and_iff_right fun _ => hspec.2.1 hok]
        exact hlater
      · -- the panic leaves no turn to the hooks after it
        have hlast := executeLoop_of_ends hookPoint results rest fun h => absurd h hok
        have hzero : (metrics.totalExecutions + 1) % 2 ^ 32 = 0 := by
          simpa using fun h => hok (hspec.2.2 h)
        rw [hlast.1, List.cons_inj_right, eq_comm, ← List.length_eq_zero_iff]
        constructor
        · intro hnil
          rw [hnil]
          exact ⟨fun hpos => absurd hpos (by decide), fun i _ hlt => absurd hlt (by omega)⟩
        · intro h
          by_contra hne
          exact h.1 (by omega) hzero

end

theorem Tracks.executeHooks (h : Tracks m regs) (hookPoint : HookPoint) (message : Message)
    (context : Context) (world : World) :
    Tracks { m with metrics := (m.executeHooks hookPoint message context world).metrics } regs :=
  ⟨h.sorted, h.points, (executeLoop_metrics hookPoint message context world [] h.average _).2⟩

theorem Tracks.apply (h : Tracks m regs) (call : Call Message Context World) :
    Tracks (call.apply m) (call.live regs) := by
  cases call with
  | register registration => exact h.registerHook registration
  | unregister pluginId => exact (h.unregisterPluginHooks pluginId).2
  | execute hookPoint message context world =>
    exact h.executeHooks hookPoint message context world

theorem tracks_managerAfter (calls : List (Call Message Context World)) :
    Tracks (managerAfter calls) (liveAfter calls) :=
  List.foldl_rel tracks_new fun call _ _ _ h => h.apply call

/-! ## The whole manager -/

/-- Hooks run by priority, and the counts agree. -/
structure HooksOrdered (calls : List (Call Message Context World)) : Prop where
  sorted : ∀ hookPoint, StablySorted priorityOf (atPoint (liveAfter calls) hookPoint)
    ((managerAfter calls).hookDetails hookPoint)
  hookCount : ∀ hookPoint,
    (managerAfter calls).hookCount hookPoint = (atPoint (liveAfter calls) hookPoint).length
  pluginHookCount : ∀ pluginId,
    (managerAfter calls).pluginHookCount pluginId = (ofPlugin (liveAfter calls) pluginId).length
  unregistered : ∀ pluginId, ((managerAfter calls).unregisterPluginHooks pluginId).1 =
    (ofPlugin (liveAfter calls) pluginId).length
  run : ∀ hookPoint message context world,
    ((managerAfter calls).executeHooks hookPoint message context world).run =
      toRun message context world ((managerAfter calls).hookDetails hookPoint)

private theorem hookCount_eq (hookPoint : HookPoint) :
    m.hookCount hookPoint = (m.hookDetails hookPoint).length := by
  rw [HookManager.hookCount, HookManager.hookDetails]
  cases m.hooks.lookup hookPoint <;> rfl

private theorem pluginHookCount_eq (pluginId : PluginId) :
    m.pluginHookCount pluginId = ((m.pluginHooks.lookup pluginId).getD []).length := by
  rw [HookManager.pluginHookCount]
  cases m.pluginHooks.lookup pluginId <;> rfl

/-- The hooks are kept and counted as they should be after any calls.  They are run as they
should be exactly when no `2 ^ 32`-th execution comes before the last hook to run. -/
theorem hooks_ordered_iff (calls : List (Call Message Context World)) :
    HooksOrdered calls ↔ ∀ hookPoint message context world,
      Unbroken (managerAfter calls).metrics.totalExecutions
        (toRun message context world ((managerAfter calls).hookDetails hookPoint)).length := by
  have htr := tracks_managerAfter calls
  constructor
  · intro h hookPoint message context world
    exact (executeLoop_run_iff hookPoint message context world [] htr.average _).1
      (h.run hookPoint message context world)
  · intro h
    constructor
    case sorted => exact htr.sorted
    case hookCount =>
      intro hookPoint
      rw [hookCount_eq]
      exact (htr.sorted hookPoint).perm.length_eq
    case pluginHookCount =>
      intro pluginId
      rw [pluginHookCount_eq, htr.points, List.length_map]
    case unregistered => exact fun pluginId => (htr.unregisterPluginHooks pluginId).1
    case run =>
      intro hookPoint message context world
      exact (executeLoop_run_iff hookPoint message context world [] htr.average _).2
        (h hookPoint message context world)

/-- A hook that always continues. -/
def steady : HookRegistration Unit Unit Unit where
  pluginId := 0
  hookPoint := .preProcessing
  priority := .normal
  hook _ _ _ := (.ok .continue_, 0, ())

def executeSteady : Call Unit Unit Unit := .execute .preProcessing () () ()

section

variable (n : Nat)

theorem toRun_steady : toRun () () () (List.replicate n steady) = List.replicate n steady := by
  induction n with
  | zero => rfl
  | succ n ih =>
    rw [List.replicate_succ, toRun]
    exact congrArg (steady :: ·) ih

variable {m : HookManager Unit Unit Unit}

theorem hookDetails_steady {n : Nat} (h : Tracks m (List.replicate n steady)) :
    m.hookDetails .preProcessing = List.replicate n steady := by
  have hall : atPoint (List.replicate n steady) .preProcessing = List.replicate n steady := by
    simp [atPoint, steady]
  have hperm := (h.sorted .preProcessing).perm
  rw [hall, List.perm_replicate] at hperm
  exact hperm

theorem foldl_register_steady (m : HookManager Unit Unit Unit)
    (regs : List (HookRegistration Unit Unit Unit)) :
    ((List.replicate n (Call.register steady)).foldl Call.apply m).metrics.totalExecutions =
        m.metrics.totalExecutions ∧
      (List.replicate n (Call.register steady)).foldl Call.live regs =
        regs ++ List.replicate n steady := by
  induction n generalizing m regs with
  | zero => simp
  | succ n ih =>
    have hnext := ih (m.registerHook steady) (regs ++ [steady])
    rw [List.replicate_succ, List.foldl_cons, List.foldl_cons, List.replicate_succ]
    exact ⟨hnext.1, hnext.2.trans (by simp)⟩

theorem foldl_execute_steady (h : Tracks m [steady]) :
    Tracks ((List.replicate n executeSteady).foldl Call.apply m) [steady] ∧
      ((List.replicate n executeSteady).foldl Call.apply m).metrics.totalExecutions =
        m.metrics.totalExecutions + n := by
  induction n generalizing m with
  | zero => exact ⟨h, rfl⟩
  | succ n ih =>
    have hdetails : m.hookDetails .preProcessing = [steady] := hookDetails_steady (n := 1) h
    have htot : (executeSteady.apply m).metrics.totalExecutions =
        m.metrics.totalExecutions + 1 := by
      have hmet := (executeLoop_metrics .preProcessing () () () [] h.average [steady]).1
      have hrun := (executeLoop_run_iff .preProcessing () () () [] h.average [steady]).2
        (unbroken_one _)
      rw [hrun] at hmet
      show (executeLoop _ _ _ _ _ _ (m.hookDetails .preProcessing)).metrics.totalExecutions = _
      rw [hdetails]
      exact hmet
    have hnext := ih (h.apply executeSteady)
    rw [List.replicate_succ, List.foldl_cons]
    exact ⟨hnext.1, by rw [hnext.2, htot]; omega⟩

theorem tracks_steady : Tracks (HookManager.new.registerHook steady) [steady] :=
  tracks_new.registerHook steady

/-- A registration before and after `n` executions. -/
def busy : HookManager Unit Unit Unit :=
  managerAfter (.register steady :: List.replicate n executeSteady ++ [.register steady])

private theorem tracks_busy : Tracks (busy n) [steady, steady] := by
  rw [busy, managerAfter, List.foldl_append]
  exact (foldl_execute_steady n tracks_steady).1.registerHook steady

private theorem totalExecutions_busy : (busy n).metrics.totalExecutions = n := by
  rw [busy, managerAfter, List.foldl_append]
  exact (foldl_execute_steady n tracks_steady).2.trans (Nat.zero_add n)

/-- The same registration `n` times. -/
def crowded : HookManager Unit Unit Unit :=
  managerAfter (List.replicate n (.register steady))

private theorem tracks_crowded : Tracks (crowded n) (List.replicate n steady) := by
  have htr := tracks_managerAfter (List.replicate n (Call.register steady))
  rwa [liveAfter, (foldl_register_steady n .new []).2, List.nil_append] at htr

private theorem totalExecutions_crowded : (crowded n).metrics.totalExecutions = 0 :=
  (foldl_register_steady n .new []).1

end

/-- Two hooks, neither of which stops or fails, and one of them is run; so too for `2 ^ 32 + 1`
hooks that are run for the first time. -/
theorem hook_left_out :
    ((busy (2 ^ 32 - 1)).hookDetails .preProcessing = [steady, steady] ∧
      toRun () () () [steady, steady] = [steady, steady] ∧
      ((busy (2 ^ 32 - 1)).executeHooks .preProcessing () () ()).run = [steady]) ∧
    ((crowded (2 ^ 32 + 1)).hookDetails .preProcessing = List.replicate (2 ^ 32 + 1) steady ∧
      toRun () () () (List.replicate (2 ^ 32 + 1) steady) = List.replicate (2 ^ 32 + 1) steady ∧
      ((crowded (2 ^ 32 + 1)).executeHooks .preProcessing () () ()).run ≠
        List.replicate (2 ^ 32 + 1) steady) := by
  have hbusy : (busy (2 ^ 32 - 1)).hookDetails .preProcessing = [steady, steady] :=
    hookDetails_steady (n := 2) (tracks_busy (2 ^ 32 - 1))
  have hcrowded := hookDetails_steady (tracks_crowded (2 ^ 32 + 1))
  refine ⟨⟨hbusy, toRun_steady 2, ?_⟩, hcrowded, toRun_steady _, ?_⟩
  · have hzero : ((busy (2 ^ 32 - 1)).metrics.totalExecutions + 1) % 2 ^ 32 = 0 := by
      rw [totalExecutions_busy]
      decide
    have hpanic : (recordHook () () () (busy (2 ^ 32 - 1)).metrics steady).2 ≠ .ok () := by
      intro hok
      exact (recordExecution_spec (tracks_busy _).average _ _).2.1 hok hzero
    show (executeLoop _ _ _ _ _ _ ((busy (2 ^ 32 - 1)).hookDetails .preProcessing)).run = _
    rw [hbusy]
    exact (executeLoop_of_ends .preProcessing [] [steady] fun hok => absurd hok hpanic).1
  · intro hrun
    have hiff := executeLoop_run_iff .preProcessing () () () []
      (tracks_crowded (2 ^ 32 + 1)).average (List.replicate (2 ^ 32 + 1) steady)
    rw [toRun_steady, List.length_replicate, totalExecutions_crowded] at hiff
    have hrun' : (executeLoop .preProcessing () () (crowded (2 ^ 32 + 1)).metrics () []
        ((crowded (2 ^ 32 + 1)).hookDetails .preProcessing)).run =
        List.replicate (2 ^ 32 + 1) steady := hrun
    rw [hcrowded] at hrun'
    exact hiff.1 hrun' (2 ^ 32) (by decide) (by decide) (by decide)

end Kaelix.Core.Plugin
