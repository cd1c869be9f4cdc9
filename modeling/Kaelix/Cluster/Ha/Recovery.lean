import Kaelix.Cluster.Node.Registry

/-!
# The recovery manager

`RecoveryManager` of `ha/recovery.rs`: plans for the five strategies of recovery, their execution
under a timeout, and the statistics of the executions.

How the operation of a step ends is arbitrary, and so is the step during which the timeout
strikes, if it does.
-/

namespace Kaelix.Cluster.Ha

open Lib

inductive RecoveryError where
  | dataSyncFailed (nodeId : NodeId) (reason : String)
  | validationFailed (reason : String)
  | recoveryTimeout (operation : String)
  | insufficientNodes (needed available : Nat)
  | conflictDetected (reason : String)
  deriving DecidableEq

abbrev RecoveryResult (T : Type) := Except RecoveryError T

inductive RecoveryStrategy where
  | conservative
  | fast
  | rebuild
  | partialRecovery
  | manual
  deriving DecidableEq

/-- The steps a plan is made of. -/
inductive RecoveryStep where
  | validateClusterState
  | prepareRecovery
  | synchronizeData
  | validateDataConsistency
  | restoreFromReplica
  | rebuildFromBackup
  | partialRestore
  | rebalanceCluster
  | validateRecovery
  | waitForManualIntervention
  deriving DecidableEq

/-- `RecoveryPlan`; its duration is in seconds, and the time of creation is left out. -/
structure RecoveryPlan where
  planId : String
  targetNodes : List NodeId
  strategy : RecoveryStrategy
  steps : List RecoveryStep
  expectedDuration : Nat
  coordinator : NodeId
  deriving DecidableEq

def RecoveryStrategy.schedule : RecoveryStrategy → List RecoveryStep × Nat
  | .conservative =>
    ([.validateClusterState, .prepareRecovery, .synchronizeData, .validateDataConsistency,
      .rebalanceCluster, .validateRecovery], 30)
  | .fast => ([.prepareRecovery, .restoreFromReplica, .rebalanceCluster, .validateRecovery], 10)
  | .rebuild =>
    ([.validateClusterState, .prepareRecovery, .rebuildFromBackup, .synchronizeData,
      .validateDataConsistency, .rebalanceCluster, .validateRecovery], 60)
  | .partialRecovery => ([.prepareRecovery, .partialRestore, .validateRecovery], 15)
  | .manual => ([.prepareRecovery, .waitForManualIntervention, .validateRecovery], 300)

def RecoveryPlan.new (planId : String) (targetNodes : List NodeId) (strategy : RecoveryStrategy)
    (coordinator : NodeId) : RecoveryPlan :=
  { planId, targetNodes, strategy
    steps := strategy.schedule.1
    expectedDuration := strategy.schedule.2
    coordinator }

/-- The call a step makes. -/
inductive RecoveryOperation where
  | validateClusterState (targetNodes : List NodeId)
  | prepareNodesForRecovery (targetNodes : List NodeId)
  | synchronizeDataBetweenNodes (targetNodes : List NodeId)
  | validateDataConsistency (targetNodes : List NodeId)
  | restoreFromHealthyReplicas (targetNodes : List NodeId)
  | rebuildFromBackup (targetNodes : List NodeId)
  | performPartialRestore (targetNodes : List NodeId)
  | rebalanceClusterLoad (targetNodes : List NodeId)
  | validateRecoveryCompletion (targetNodes : List NodeId)
  | waitForManualIntervention
  deriving DecidableEq

/-- `execute_single_recovery_step`, given how the operations end: with the number of bytes
processed, or with the text of an error. -/
def executeSingleRecoveryStep (outcome : RecoveryOperation → Except String Nat)
    (step : RecoveryStep) (plan : RecoveryPlan) : Except String Nat :=
  match step with
  | .validateClusterState => outcome (.validateClusterState plan.targetNodes)
  | .prepareRecovery => outcome (.prepareNodesForRecovery plan.targetNodes)
  | .synchronizeData => outcome (.synchronizeDataBetweenNodes plan.targetNodes)
  | .validateDataConsistency => outcome (.validateDataConsistency plan.targetNodes)
  | .restoreFromReplica => outcome (.restoreFromHealthyReplicas plan.targetNodes)
  | .rebuildFromBackup => outcome (.rebuildFromBackup plan.targetNodes)
  | .partialRestore => outcome (.performPartialRestore plan.targetNodes)
  | .rebalanceCluster => outcome (.rebalanceClusterLoad plan.targetNodes)
  | .validateRecovery => outcome (.validateRecoveryCompletion plan.targetNodes)
  | .waitForManualIntervention => outcome .waitForManualIntervention

structure RecoveryStepResult where
  step : RecoveryStep
  success : Bool
  duration : Nat
  dataProcessed : Nat
  error : Option String
  timestamp : Nat
  deriving DecidableEq

/-- A plan under way. -/
structure RecoveryExecution where
  plan : RecoveryPlan
  currentStep : Nat
  stepResults : List RecoveryStepResult
  totalDataProcessed : Nat
  deriving DecidableEq

abbrev Recoveries := HashMap String RecoveryExecution

/-- The coordinator's totals. -/
structure RecoveryStats where
  totalRecoveries : Nat
  successfulRecoveries : Nat
  failedRecoveries : Nat
  averageRecoveryTime : Nat
  totalDataRecovered : Nat
  deriving DecidableEq

/-- The recoveries at work, and the statistics. -/
structure RecoveryManager where
  managerId : NodeId
  validationTimeout : Nat
  activeRecoveries : Recoveries
  stats : RecoveryStats
  executionCounter : Nat
  results : List (RecoveryResult Unit)

/-- A call of `execute_recovery`: the plan, and what happens during the execution. -/
structure RecoveryCall where
  plan : RecoveryPlan
  /-- How the operation ends that a step calls. -/
  outcome : Nat → RecoveryOperation → Except String Nat
  stepDuration : Nat → Nat
  timestamp : Nat → Nat
  interrupted : Option Nat
  elapsed : Nat

namespace RecoveryCall

variable (call : RecoveryCall)

def stepResult (stepIndex : Nat) (step : RecoveryStep) : Except String Nat :=
  executeSingleRecoveryStep (call.outcome stepIndex) step call.plan

/-- The result of a step on record. -/
def recordStep (stepIndex : Nat) (step : RecoveryStep) (recoveries : Recoveries) : Recoveries :=
  let (success, error, dataProcessed) :=
    match call.stepResult stepIndex step with
    | .ok dataProcessed => (true, none, dataProcessed)
    | .error e => (false, some e, 0)
  match recoveries.lookup call.plan.planId with
  | some execution =>
    AList.insert call.plan.planId
      { execution with
        currentStep := stepIndex + 1
        stepResults := execution.stepResults ++
          [{ step, success, dataProcessed, error
             duration := call.stepDuration stepIndex
             timestamp := call.timestamp stepIndex }]
        totalDataProcessed := execution.totalDataProcessed + dataProcessed }
      recoveries
  | none => recoveries

/-- The loop of `execute_recovery_steps` over the steps that are left, which the timeout may end:
then there is no result.  A failed step ends it, unless it waits for manual intervention. -/
def executeRecoverySteps (call : RecoveryCall) (recoveries : Recoveries) (stepIndex : Nat) :
    List RecoveryStep → Recoveries × Option (RecoveryResult Unit)
  | [] => (recoveries, some (.ok ()))
  | step :: steps =>
    if call.interrupted = some stepIndex then (recoveries, none)
    else
      let recoveries := call.recordStep stepIndex step recoveries
      match call.stepResult stepIndex step with
      | .error e =>
        if step ≠ .waitForManualIntervention then (recoveries, some (.error (.validationFailed e)))
        else call.executeRecoverySteps recoveries (stepIndex + 1) steps
      | .ok _ => call.executeRecoverySteps recoveries (stepIndex + 1) steps

/-- A step fails before the timeout. -/
def FailsAtStep : Prop :=
  ∃ i step e, call.plan.steps[i]? = some step ∧ step ≠ .waitForManualIntervention ∧
    call.stepResult i step = .error e ∧ ∀ j ≤ i, call.interrupted ≠ some j

end RecoveryCall

def RecoveryStats.update (self : RecoveryStats) (duration : Nat) (success : Bool)
    (execution : Option RecoveryExecution) : RecoveryStats :=
  let totalRecoveries := self.totalRecoveries + 1
  let totalTime := self.averageRecoveryTime * (totalRecoveries - 1) + duration
  { totalRecoveries
    successfulRecoveries := self.successfulRecoveries + if success then 1 else 0
    failedRecoveries := self.failedRecoveries + if success then 0 else 1
    averageRecoveryTime := totalTime / totalRecoveries
    totalDataRecovered := self.totalDataRecovered +
      match execution with
      | some execution => execution.totalDataProcessed
      | none => 0 }

namespace RecoveryManager

def new (managerId : NodeId) (validationTimeout : Nat) : RecoveryManager :=
  { managerId, validationTimeout
    activeRecoveries := ∅
    stats := ⟨0, 0, 0, 0, 0⟩
    executionCounter := 0
    results := [] }

variable (self : RecoveryManager)

def createRecoveryPlan (planId : String) (targetNodes : List NodeId)
    (strategy : RecoveryStrategy) : RecoveryResult RecoveryPlan :=
  if targetNodes.isEmpty then
    .error (.validationFailed "No target nodes specified for recovery")
  else .ok (.new planId targetNodes strategy self.managerId)

def start (plan : RecoveryPlan) : Recoveries :=
  AList.insert plan.planId
    { plan, currentStep := 0, stepResults := [], totalDataProcessed := 0 }
    self.activeRecoveries

/-- `execute_recovery`: what it returns, and the manager afterwards.  The statistics are told
whether the steps came to an end, not how. -/
def executeRecovery (call : RecoveryCall) : RecoveryResult Unit × RecoveryManager :=
  let (recoveries, result) := call.executeRecoverySteps (self.start call.plan) 0 call.plan.steps
  let finalStats := recoveries.lookup call.plan.planId
  let returned := match result with
    | some (.ok ()) => .ok ()
    | some (.error e) => .error e
    | none => .error (.recoveryTimeout "recovery_execution")
  (returned,
    { self with
      activeRecoveries := recoveries.erase call.plan.planId
      stats := self.stats.update call.elapsed result.isSome finalStats
      executionCounter := self.executionCounter + 1
      results := self.results ++ [returned] })

/-- The manager after some recoveries. -/
def run (calls : List RecoveryCall) : RecoveryManager :=
  calls.foldl (fun self call => (self.executeRecovery call).2) self

/-- The statistics tell how many calls returned `Ok`, how many an error, and how many there were. -/
structure Truthful (stats : RecoveryStats) (returned : List (RecoveryResult Unit)) : Prop where
  successful : stats.successfulRecoveries = returned.countP (·.isOk)
  failed : stats.failedRecoveries = returned.countP (!·.isOk)
  total : stats.totalRecoveries = returned.countP (·.isOk) + returned.countP (!·.isOk)

end RecoveryManager

/-! ## Executions that fail at a step -/

namespace RecoveryCall

variable {call : RecoveryCall} {recoveries : Recoveries} {stepIndex : Nat} {step : RecoveryStep}
  {steps : List RecoveryStep}

private theorem executeRecoverySteps_of_failed {e : String}
    (hstr : call.interrupted ≠ some stepIndex)
    (hstep : step ≠ .waitForManualIntervention) (he : call.stepResult stepIndex step = .error e) :
    (call.executeRecoverySteps recoveries stepIndex (step :: steps)).2 =
      some (.error (.validationFailed e)) := by
  simp [executeRecoverySteps, hstr, he, hstep]

private theorem executeRecoverySteps_of_not_failed (hstr : call.interrupted ≠ some stepIndex)
    (hstep : ∀ e, step ≠ .waitForManualIntervention → call.stepResult stepIndex step ≠ .error e) :
    call.executeRecoverySteps recoveries stepIndex (step :: steps) =
      call.executeRecoverySteps (call.recordStep stepIndex step recoveries) (stepIndex + 1)
        steps := by
  rw [executeRecoverySteps, if_neg hstr]
  cases hres : call.stepResult stepIndex step with
  | ok => rfl
  | error e =>
    have hmanual : ¬ step ≠ .waitForManualIntervention := fun h => hstep e h hres
    exact if_neg hmanual

private theorem executeRecoverySteps_error_iff :
    (∃ e, (call.executeRecoverySteps recoveries stepIndex steps).2 = some (.error e)) ↔
      ∃ i step e, steps[i]? = some step ∧ step ≠ .waitForManualIntervention ∧
        call.stepResult (stepIndex + i) step = .error e ∧
        ∀ j, stepIndex ≤ j → j ≤ stepIndex + i → call.interrupted ≠ some j := by
  induction steps generalizing recoveries stepIndex with
  | nil => simp [executeRecoverySteps]
  | cons step steps ih =>
    by_cases hstr : call.interrupted = some stepIndex
    · simp only [executeRecoverySteps, hstr, if_true, reduceCtorEq, exists_false, false_iff]
      rintro ⟨i, _, _, -, -, -, hbef⟩
      exact hbef stepIndex (Nat.le_refl _) (Nat.le_add_right _ _) rfl
    by_cases hfail : ∃ e, step ≠ .waitForManualIntervention ∧
        call.stepResult stepIndex step = .error e
    · obtain ⟨e, hstep, he⟩ := hfail
      refine iff_of_true ⟨_, executeRecoverySteps_of_failed hstr hstep he⟩
        ⟨0, step, e, rfl, hstep, he, fun j hle hge => ?_⟩
      rwa [show j = stepIndex by omega]
    · rw [executeRecoverySteps_of_not_failed hstr fun e hstep he => hfail ⟨e, hstep, he⟩, ih]
      constructor
      · rintro ⟨i, step', e, hi, hstep, he, hbef⟩
        rw [Nat.add_right_comm] at he hbef
        refine ⟨i + 1, step', e, hi, hstep, he, fun j hle hge => ?_⟩
        rcases Nat.eq_or_lt_of_le hle with rfl | hlt
        · exact hstr
        · exact hbef j hlt hge
      · rintro ⟨i, step', e, hi, hstep, he, hbef⟩
        cases i with
        | zero =>
          cases hi
          exact absurd ⟨e, hstep, he⟩ hfail
        | succ i =>
          rw [← Nat.add_assoc, Nat.add_right_comm] at he hbef
          exact ⟨i, step', e, hi, hstep, he,
            fun j hle hge => hbef j (Nat.le_of_succ_le hle) hge⟩

private theorem failsAtStep_iff (call : RecoveryCall) (recoveries : Recoveries) :
    call.FailsAtStep ↔
      ∃ e, (call.executeRecoverySteps recoveries 0 call.plan.steps).2 = some (.error e) := by
  simp [executeRecoverySteps_error_iff, FailsAtStep]

end RecoveryCall

/-! ## The statistics -/

namespace RecoveryManager

section

open Classical

private theorem executeRecovery_stats (self : RecoveryManager) (call : RecoveryCall) :
    (self.executeRecovery call).2.stats.successfulRecoveries =
        self.stats.successfulRecoveries +
          (if (self.executeRecovery call).1.isOk then 1 else 0) +
          (if call.FailsAtStep then 1 else 0) ∧
      (self.executeRecovery call).2.stats.successfulRecoveries +
          (self.executeRecovery call).2.stats.failedRecoveries =
        self.stats.successfulRecoveries + self.stats.failedRecoveries + 1 ∧
      (self.executeRecovery call).2.stats.totalRecoveries = self.stats.totalRecoveries + 1 := by
  have hfails := call.failsAtStep_iff (self.start call.plan)
  rcases hended : call.executeRecoverySteps (self.start call.plan) 0 call.plan.steps with
    ⟨_, _ | _ | _⟩
  · -- the timeout has struck
    have hnot : ¬ call.FailsAtStep := by simp [hfails, hended]
    simp [executeRecovery, RecoveryStats.update, hended, hnot, Except.isOk, Except.toBool,
      Nat.add_assoc]
  · -- a step has failed
    have hstep : call.FailsAtStep := by simp [hfails, hended]
    simp [executeRecovery, RecoveryStats.update, hended, hstep, Except.isOk, Except.toBool,
      Nat.add_right_comm]
  · have hnot : ¬ call.FailsAtStep := by simp [hfails, hended]
    simp [executeRecovery, RecoveryStats.update, hended, hnot, Except.isOk, Except.toBool,
      Nat.add_right_comm]

private theorem run_stats (self : RecoveryManager) (calls : List RecoveryCall) :
    (self.run calls).stats.successfulRecoveries =
        self.stats.successfulRecoveries +
          (replies executeRecovery self calls).countP (·.isOk) +
          calls.countP (·.FailsAtStep) ∧
      (self.run calls).stats.successfulRecoveries + (self.run calls).stats.failedRecoveries =
        self.stats.successfulRecoveries + self.stats.failedRecoveries + calls.length ∧
      (self.run calls).stats.totalRecoveries = self.stats.totalRecoveries + calls.length := by
  induction calls generalizing self with
  | nil => simp [run, replies]
  | cons call calls ih =>
    obtain ⟨hsucc, hsum, htot⟩ := self.executeRecovery_stats call
    obtain ⟨hsucc', hsum', htot'⟩ := ih (self.executeRecovery call).2
    have hrun : self.run (call :: calls) = (self.executeRecovery call).2.run calls := rfl
    simp only [hrun, replies, List.countP_cons, List.length_cons, decide_eq_true_eq]
    omega

end

/-- After every sequence of calls the statistics tell how many of them returned `Ok`, how many an
error, and how many there were, if and only if no step has ended an execution with an error. -/
theorem stats_truthful_iff (managerId : NodeId) (validationTimeout : Nat)
    (calls : List RecoveryCall) :
    Truthful ((new managerId validationTimeout).run calls).stats
        (replies executeRecovery (new managerId validationTimeout) calls) ↔
      ∀ call ∈ calls, ¬ call.FailsAtStep := by
  classical
  have hlen := length_replies executeRecovery (new managerId validationTimeout) calls
  obtain ⟨hsucc, hsum, htot⟩ := (new managerId validationTimeout).run_stats calls
  have hnew : (new managerId validationTimeout).stats = ⟨0, 0, 0, 0, 0⟩ := rfl
  have hnone : calls.countP (·.FailsAtStep) = 0 ↔ ∀ call ∈ calls, ¬ call.FailsAtStep := by
    simp
  simp only [hnew, Nat.zero_add] at hsucc hsum htot
  rw [List.length_eq_countP_add_countP (·.isOk)] at hlen
  simp only [Bool.not_eq_true, Bool.decide_eq_false] at hlen
  rw [← hnone]
  constructor
  · intro h
    have := h.successful
    omega
  · intro hzero
    exact ⟨by omega, by omega, by omega⟩

def failedValidation : RecoveryCall :=
  { plan := .new "recovery-1" [⟨1⟩] .conservative ⟨2⟩
    outcome := fun _ _ => .error "no quorum"
    stepDuration := fun _ => 100
    timestamp := fun _ => 0
    interrupted := none
    elapsed := 100 }

/-- It is counted as a success. -/
theorem failed_validation_counted :
    (new ⟨2⟩ 5).createRecoveryPlan "recovery-1" [⟨1⟩] .conservative = .ok failedValidation.plan ∧
      replies executeRecovery (new ⟨2⟩ 5) [failedValidation] =
        [.error (.validationFailed "no quorum")] ∧
      ((new ⟨2⟩ 5).run [failedValidation]).stats.successfulRecoveries = 1 ∧
      ((new ⟨2⟩ 5).run [failedValidation]).stats.failedRecoveries = 0 ∧
      ¬ Truthful ((new ⟨2⟩ 5).run [failedValidation]).stats
        (replies executeRecovery (new ⟨2⟩ 5) [failedValidation]) := by
  have hreplies : replies executeRecovery (new ⟨2⟩ 5) [failedValidation] =
      [.error (.validationFailed "no quorum")] := rfl
  have hcnt : ((new ⟨2⟩ 5).run [failedValidation]).stats.successfulRecoveries = 1 := by decide
  refine ⟨rfl, hreplies, hcnt, by decide, fun h => ?_⟩
  have := h.successful
  rw [hcnt, hreplies] at this
  cases this

end RecoveryManager

end Kaelix.Cluster.Ha
