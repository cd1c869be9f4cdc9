import Kaelix.Lib.HashMap
import Kaelix.Lib.Overflow
import Kaelix.Lib.OrderStatistics

/-!
# Plugin hooks

`HookManager` of `plugin/hooks.rs`: for each hook point the hooks that are registered there in
the order in which they run, and for each plugin the points of its hooks.

What a hook does is arbitrary: it may depend on and change a world that the hooks share.  It
takes less than 136 years.  The calls are made one after another, and the counters of the
metrics do not overflow.  The other data of a registration are left out, as no call reads them.
-/

namespace Kaelix.Core.Plugin

open Lib

abbrev PluginId := BitVec 128

/-- The usual form of a UUID. -/
def displayPluginId (id : PluginId) : String :=
  let hex := (Nat.toDigits 16 id.toNat).leftpad 32 '0'
  let part := fun start length => String.ofList ((hex.drop start).take length)
  "-".intercalate [part 0 8, part 8 4, part 12 4, part 16 4, part 20 12]

/-- The places a hook can be put at. -/
inductive HookPoint where
  | preValidation | postValidation
  | preTransformation | postTransformation
  | preRouting | postRouting
  | preSerialization | postSerialization
  | preProcessing | postProcessing
  | preError | postError
  | custom (hash : UInt64)
  deriving DecidableEq

def HookPoint.name : HookPoint → String
  | .preValidation => "pre_validation"
  | .postValidation => "post_validation"
  | .preTransformation => "pre_transformation"
  | .postTransformation => "post_transformation"
  | .preRouting => "pre_routing"
  | .postRouting => "post_routing"
  | .preSerialization => "pre_serialization"
  | .postSerialization => "post_serialization"
  | .preProcessing => "pre_processing"
  | .postProcessing => "post_processing"
  | .preError => "pre_error"
  | .postError => "post_error"
  | .custom _ => "custom"

/-- `HookPriority`.  Lower values run first. -/
structure HookPriority where
  value : Int32
  deriving DecidableEq

def HookPriority.normal : HookPriority := ⟨0⟩

/-- What a hook tells the manager. -/
inductive HookResult (Message Context : Type) where
  | continue_
  | stop
  | modifyAndContinue (message : Message)
  | updateContext (context : Context)
  | modifyBoth (message : Message) (context : Context)

inductive HookError where
  | executionFailed (pluginId hookPoint reason : String)
  deriving DecidableEq

/-- The time a hook takes, in nanoseconds. -/
abbrev Elapsed := Fin (2 ^ 32 * 1000000000)

/-- `Hook::execute`: the result or the text of the error, the time taken, and the world that the
hook leaves behind. -/
abbrev Hook (Message Context World : Type) :=
  Message → Context → World → Except String (HookResult Message Context) × Elapsed × World

/-- A hook of a plugin at a point. -/
structure HookRegistration (Message Context World : Type) where
  pluginId : PluginId
  hookPoint : HookPoint
  priority : HookPriority
  hook : Hook Message Context World

/-! ## Metrics -/

/-- `HookManagerMetrics`; the average is in nanoseconds. -/
structure HookManagerMetrics where
  totalRegistrations : Nat
  totalUnregistrations : Nat
  totalExecutions : Nat
  successfulExecutions : Nat
  failedExecutions : Nat
  avgExecutionTime : Nat
  deriving DecidableEq

def maxDuration : Nat := (2 ^ 64 - 1) * 1000000000 + 999999999

/-- `(avg * n + duration) / d` for `Duration` and `u32`. -/
def nextAverage (avg n duration d : Nat) : Except Panic Nat :=
  if maxDuration < avg * n then .error ⟨"overflow when multiplying duration by scalar"⟩
  else if maxDuration < avg * n + duration then .error ⟨"overflow when adding durations"⟩
  else if d = 0 then .error ⟨"divide by zero error when dividing duration by scalar"⟩
  else .ok ((avg * n + duration) / d)

namespace HookManagerMetrics

def new : HookManagerMetrics := ⟨0, 0, 0, 0, 0, 0⟩

/-- `HookManagerMetrics::record_execution`: the counters are counted up before a panic. -/
def recordExecution (m : HookManagerMetrics) (duration : Elapsed) (success : Bool) :
    HookManagerMetrics × Except Panic Unit :=
  let m := { m with totalExecutions := m.totalExecutions + 1 }
  let m :=
    if success then { m with successfulExecutions := m.successfulExecutions + 1 }
    else { m with failedExecutions := m.failedExecutions + 1 }
  let total := m.totalExecutions
  -- `(total - 1) as u32` and `total as u32`
  match nextAverage m.avgExecutionTime ((total - 1) % 2 ^ 32) duration (total % 2 ^ 32) with
  | .ok avg => ({ m with avgExecutionTime := avg }, .ok ())
  | .error p => (m, .error p)

end HookManagerMetrics

/-! ## The manager -/

/-- The hooks by point, the points by plugin. -/
structure HookManager (Message Context World : Type) where
  hooks : HashMap HookPoint (List (HookRegistration Message Context World))
  pluginHooks : HashMap PluginId (List HookPoint)
  metrics : HookManagerMetrics

/-- What `execute_hooks` does: the hooks that it runs, what it returns, and what it leaves. -/
structure Execution (Message Context World : Type) where
  run : List (HookRegistration Message Context World)
  outcome : Except (Failure HookError) (List (HookResult Message Context))
  world : World
  metrics : HookManagerMetrics

variable {Message Context World : Type}

/-- Runs the hooks in order, up to the first that stops or fails. -/
def executeLoop (hookPoint : HookPoint) (message : Message) (context : Context)
    (metrics : HookManagerMetrics) (world : World) (results : List (HookResult Message Context)) :
    List (HookRegistration Message Context World) → Execution Message Context World
  | [] => { run := [], outcome := .ok results, world, metrics }
  | registration :: rest =>
    let (result, elapsed, world) := registration.hook message context world
    match result with
    | .ok result =>
      match metrics.recordExecution elapsed true with
      | (metrics, .error p) =>
        { run := [registration], outcome := .error (.panic p), world, metrics }
      | (metrics, .ok ()) =>
        let results := results ++ [result]
        match result with
        | .stop => { run := [registration], outcome := .ok results, world, metrics }
        | _ =>
          let execution := executeLoop hookPoint message context metrics world results rest
          { execution with run := registration :: execution.run }
    | .error error =>
      match metrics.recordExecution elapsed false with
      | (metrics, .error p) =>
        { run := [registration], outcome := .error (.panic p), world, metrics }
      | (metrics, .ok ()) =>
        { run := [registration]
          outcome := .error (.error (.executionFailed (displayPluginId registration.pluginId)
            hookPoint.name error))
          world, metrics }

namespace HookManager

def new : HookManager Message Context World := { hooks := ∅, pluginHooks := ∅, metrics := .new }

variable (m : HookManager Message Context World)

/-- `HookManager::hook_details`: the hooks at a point, in the order in which they run. -/
def hookDetails (hookPoint : HookPoint) : List (HookRegistration Message Context World) :=
  (m.hooks.lookup hookPoint).getD []

def hookCount (hookPoint : HookPoint) : Nat :=
  ((m.hooks.lookup hookPoint).map List.length).getD 0

variable (pluginId : PluginId)

def pluginHookCount : Nat :=
  ((m.pluginHooks.lookup pluginId).map List.length).getD 0

/-- The hooks of the point are sorted again. -/
def registerHook (registration : HookRegistration Message Context World) :
    HookManager Message Context World :=
  let points := (m.pluginHooks.lookup registration.pluginId).getD []
  let hooks := (m.hooks.lookup registration.hookPoint).getD [] ++ [registration]
  { hooks := AList.insert registration.hookPoint
      (sortByKey (fun reg => reg.priority.value.toInt) hooks) m.hooks
    pluginHooks := AList.insert registration.pluginId (points ++ [registration.hookPoint])
      m.pluginHooks
    metrics := { m.metrics with totalRegistrations := m.metrics.totalRegistrations + 1 } }

/-- One round of `unregister_plugin_hooks`: the hooks, and how many were removed so far. -/
def retainOthers (s : HashMap HookPoint (List (HookRegistration Message Context World)) × Nat)
    (hookPoint : HookPoint) :
    HashMap HookPoint (List (HookRegistration Message Context World)) × Nat :=
  match s.1.lookup hookPoint with
  | some hooks =>
    let retained := hooks.filter (·.pluginId ≠ pluginId)
    (s.1.insert hookPoint retained, s.2 + (hooks.length - retained.length))
  | none => s

/-- Removes the plugin at all its points. -/
def unregisterPluginHooks : Nat × HookManager Message Context World :=
  let hookPoints := (m.pluginHooks.lookup pluginId).getD []
  let (hooks, unregisteredCount) := hookPoints.foldl (retainOthers pluginId) (m.hooks, 0)
  (unregisteredCount,
    { hooks
      pluginHooks := m.pluginHooks.erase pluginId
      metrics := { m.metrics with
        totalUnregistrations := m.metrics.totalUnregistrations + unregisteredCount } })

/-- Runs the hooks of a point. -/
def executeHooks (hookPoint : HookPoint) (message : Message) (context : Context)
    (world : World) : Execution Message Context World :=
  executeLoop hookPoint message context m.metrics world []
    ((m.hooks.lookup hookPoint).getD [])

end HookManager

end Kaelix.Core.Plugin
