import Kaelix.Cluster.Ha.Coordinator

/-!
# Executing failover plans

Three steps need a replacement, and a plan or an earlier step may bring one.  A planned failover
transfers data and has no replacement to transfer them to.
-/

namespace Kaelix.Cluster.Ha

open Lib

/-! ## What a step needs and brings -/

namespace FailoverStep

/-- The step works on the replacement. -/
def needsReplacement : FailoverStep → Bool
  | .promoteReplacement | .transferData | .synchronizeData => true
  | _ => false

/-- The step finds a replacement. -/
def bringsReplacement : FailoverStep → Bool
  | .selectReplacement | .conductElection | .selectActivePartition => true
  | _ => false

end FailoverStep

/-- Every step that needs a replacement has one, where there is one at the beginning or not. -/
def Supplied : Bool → List FailoverStep → Bool
  | _, [] => true
  | has, step :: steps =>
    (has || !step.needsReplacement) && Supplied (has || step.bringsReplacement) steps

/-- The operation of the step returned an error. -/
def StepRun.OperationFailed (run : StepRun) : Prop :=
  ∃ operation e, run.called = some (operation, .error e)

/-- The step returned an error. -/
def StepRun.Failed (run : StepRun) : Prop := ∃ e, run.result = .error e

section

variable {outcome : Outcome} {step : FailoverStep} {plan : FailoverPlan} {operation : Operation}
  {replacement new : Option NodeId}

theorem executeSingleStep_step :
    (executeSingleStep outcome step plan replacement).step = step := by
  cases step <;> cases replacement <;> rfl

theorem StepRun.calling_failed_iff :
    (calling step outcome operation replacement).Failed ↔
      (calling step outcome operation replacement).OperationFailed := by
  cases outcome <;> simp [calling, Failed, OperationFailed, Except.map]

theorem StepRun.obtaining_failed_iff :
    (obtaining step outcome operation).Failed ↔
      (obtaining step outcome operation).OperationFailed := by
  cases outcome <;> simp [obtaining, Failed, OperationFailed, Except.map]

theorem StepRun.calling_result
    (h : (calling step outcome operation replacement).result = .ok new) : new = replacement := by
  cases outcome with
  | error => cases h
  | ok => exact (Except.ok.inj h).symm

theorem StepRun.obtaining_result (h : (obtaining step outcome operation).result = .ok new) :
    new.isSome = true := by
  cases outcome with
  | error => cases h
  | ok => exact Except.ok.inj h ▸ rfl

theorem failed_iff_operationFailed (h : (replacement.isSome || !step.needsReplacement) = true) :
    (executeSingleStep outcome step plan replacement).Failed ↔
      (executeSingleStep outcome step plan replacement).OperationFailed := by
  cases step with
  | detectFailure => simp [executeSingleStep, StepRun.Failed, StepRun.OperationFailed]
  | selectReplacement =>
    rw [executeSingleStep]
    split
    · simp [StepRun.Failed, StepRun.OperationFailed]
    · exact StepRun.obtaining_failed_iff
  | promoteReplacement | transferData | synchronizeData =>
    cases replacement with
    | none => cases h
    | some => exact StepRun.calling_failed_iff
  | conductElection | selectActivePartition => exact StepRun.obtaining_failed_iff
  | _ => exact StepRun.calling_failed_iff

private theorem isSome_after
    (h : (executeSingleStep outcome step plan replacement).result = .ok new) :
    (new.or replacement).isSome = (replacement.isSome || step.bringsReplacement) := by
  have hcalling : ∀ {operation}, (StepRun.calling step outcome operation replacement).result =
      .ok new → (new.or replacement).isSome = (replacement.isSome || false) := by
    intro operation h
    rw [StepRun.calling_result h]
    simp
  have hobtaining : ∀ {operation}, (StepRun.obtaining step outcome operation).result =
      .ok new → (new.or replacement).isSome = (replacement.isSome || true) := by
    intro operation h
    simp [StepRun.obtaining_result h]
  cases step with
  | detectFailure =>
    cases h
    simp [FailoverStep.bringsReplacement]
  | selectReplacement =>
    rw [executeSingleStep] at h
    split at h
    · next hsome =>
        cases h
        simp [hsome]
    · exact hobtaining h
  | promoteReplacement | transferData | synchronizeData =>
    cases replacement with
    | none => cases h
    | some => exact hcalling h
  | conductElection | selectActivePartition => exact hobtaining h
  | _ => exact hcalling h

end

/-! ## Plans -/

section

variable {outcomes : Nat → Outcome} {plan : FailoverPlan} {steps : List FailoverStep}
  {stepIndex calls : Nat} {replacement : Option NodeId} {executions : Executions}

variable {step : FailoverStep}

theorem executePlanSteps_of_error {e : FailoverError}
    (h : (executeSingleStep (outcomes calls) step plan replacement).result = .error e) :
    ∃ executions',
      executePlanSteps outcomes plan stepIndex calls replacement executions (step :: steps) =
        { steps := [executeSingleStep (outcomes calls) step plan replacement]
          result := .error e
          executions := executions' } := by
  rw [executePlanSteps]
  simp only [h]
  exact ⟨_, rfl⟩

theorem executePlanSteps_of_ok {new : Option NodeId}
    (h : (executeSingleStep (outcomes calls) step plan replacement).result = .ok new) :
    ∃ calls' executions',
      let rest := executePlanSteps outcomes plan (stepIndex + 1) calls' (new.or replacement)
        executions' steps
      executePlanSteps outcomes plan stepIndex calls replacement executions (step :: steps) =
        { rest with
          steps := executeSingleStep (outcomes calls) step plan replacement :: rest.steps } := by
  rw [executePlanSteps]
  simp only [h]
  exact ⟨_, _, rfl⟩

/-- The steps run in order, and end with the first that fails. -/
structure InOrder (steps : List FailoverStep) (run : PlanRun) : Prop where
  started : run.steps.map (·.step) <+: steps
  complete : ∀ replacement, run.result = .ok replacement → run.steps.map (·.step) = steps
  errors : (∃ e, run.result = .error e) ↔ ∃ step ∈ run.steps, step.Failed
  last : ∀ before step after, run.steps = before ++ step :: after → step.Failed → after = []

private theorem inOrder_executePlanSteps :
    InOrder steps
      (executePlanSteps outcomes plan stepIndex calls replacement executions steps) := by
  induction steps generalizing stepIndex calls replacement executions with
  | nil => exact ⟨List.prefix_rfl, fun _ _ => rfl, by simp [executePlanSteps],
      by simp [executePlanSteps]⟩
  | cons step steps ih =>
    have hstep : (executeSingleStep (outcomes calls) step plan replacement).step = step :=
      executeSingleStep_step
    cases hres : (executeSingleStep (outcomes calls) step plan replacement).result with
    | error =>
      obtain ⟨executions', heq⟩ := executePlanSteps_of_error hres
      rw [heq]
      constructor
      · simp [hstep]
      · intro _ h
        cases h
      · simp [StepRun.Failed, hres]
      · intro before run after h _
        cases before <;> simp_all
    | ok new =>
      obtain ⟨calls', executions', heq⟩ := executePlanSteps_of_ok hres
      rw [heq]
      have hrest : InOrder steps (executePlanSteps outcomes plan (stepIndex + 1) calls'
        (new.or replacement) executions' steps) := ih
      have hok : ¬ (executeSingleStep (outcomes calls) step plan replacement).Failed := by
        simp [StepRun.Failed, hres]
      constructor
      · simpa [hstep] using hrest.started
      · intro replacement' h
        simpa [hstep] using hrest.complete replacement' h
      · simpa [hok] using hrest.errors
      · intro before run after h hfail
        cases before with
        | nil =>
          rw [List.nil_append, List.cons.injEq] at h
          exact absurd (h.1 ▸ hfail) hok
        | cons first before =>
          rw [List.cons_append, List.cons.injEq] at h
          exact hrest.last before run after h.2 hfail

private theorem failed_iff_of_supplied (h : Supplied replacement.isSome steps = true) :
    ∀ run ∈ (executePlanSteps outcomes plan stepIndex calls replacement executions steps).steps,
      run.Failed ↔ run.OperationFailed := by
  induction steps generalizing stepIndex calls replacement executions with
  | nil => simp [executePlanSteps]
  | cons step steps ih =>
    obtain ⟨hneeds, hrest⟩ := Bool.and_eq_true_iff.mp h
    intro run hrun
    cases hres : (executeSingleStep (outcomes calls) step plan replacement).result with
    | error =>
      obtain ⟨executions', heq⟩ := executePlanSteps_of_error hres
      rw [heq, List.mem_singleton] at hrun
      exact hrun ▸ failed_iff_operationFailed hneeds
    | ok =>
      obtain ⟨calls', executions', heq⟩ := executePlanSteps_of_ok hres
      rw [heq] at hrun
      rcases List.mem_cons.mp hrun with rfl | hrun
      · exact failed_iff_operationFailed hneeds
      · exact ih (isSome_after hres ▸ hrest) run hrun

end

/-! ## Executions -/

/-- The execution of a plan runs its steps in order and none after one that fails, it returns an
error iff an operation has failed, and the plan is not active any more. -/
structure RunsAsPlanned (plan : FailoverPlan) (run : FailoverRun) : Prop where
  started : run.steps.map (·.step) <+: plan.steps
  complete : ∀ node, run.result = .ok node → run.steps.map (·.step) = plan.steps
  errors : (∃ e, run.result = .error e) ↔ ∃ step ∈ run.steps, step.OperationFailed
  last : ∀ before step after, run.steps = before ++ step :: after → step.Failed → after = []
  inactive : run.coordinator.activeExecutions.lookup plan.planId = none

section

variable {self : FailoverCoordinator} {outcomes : Nat → Outcome} {plan : FailoverPlan}

private theorem exists_error_map_iff {α β : Type} {f : α → β} {r : Except FailoverError α} :
    (∃ e, r.map f = .error e) ↔ ∃ e, r = .error e := by
  cases r <;> simp [Except.map]

theorem runsAsPlanned_iff :
    RunsAsPlanned plan (self.executeFailover outcomes plan) ↔
      ((∃ step ∈ (self.executeFailover outcomes plan).steps, step.Failed) ↔
        ∃ step ∈ (self.executeFailover outcomes plan).steps, step.OperationFailed) := by
  have hrun : InOrder plan.steps (executePlanSteps outcomes plan 0 0 plan.replacementNode
    (AList.insert plan.planId ⟨plan, 0, []⟩ self.activeExecutions) plan.steps) :=
    inOrder_executePlanSteps
  have herrors : (∃ e, (self.executeFailover outcomes plan).result = .error e) ↔
      ∃ step ∈ (self.executeFailover outcomes plan).steps, step.Failed :=
    exists_error_map_iff.trans hrun.errors
  constructor
  · intro h
    exact herrors.symm.trans h.errors
  · intro h
    constructor
    · exact hrun.started
    · intro node hnode
      cases hres : (executePlanSteps outcomes plan 0 0 plan.replacementNode
        (AList.insert plan.planId ⟨plan, 0, []⟩ self.activeExecutions) plan.steps).result with
      | ok replacement => exact hrun.complete replacement hres
      | error e => simp [FailoverCoordinator.executeFailover, hres, Except.map] at hnode
    · exact herrors.trans h
    · exact hrun.last
    · exact AList.lookup_erase _ _

private theorem runsAsPlanned_of_supplied
    (h : Supplied plan.replacementNode.isSome plan.steps = true) :
    RunsAsPlanned plan (self.executeFailover outcomes plan) := by
  refine runsAsPlanned_iff.mpr (exists_congr fun run => and_congr_right fun hrun => ?_)
  exact failed_iff_of_supplied h run hrun

/-! ## The plans that are created -/

variable {before : FailoverCoordinator} {selection : Outcome} {planId : String}
  {failedNode : NodeId} {failoverType : FailoverType}

private theorem supplied_of_created
    (h : before.createFailoverPlan selection planId failedNode failoverType = .ok plan)
    (hne : failoverType ≠ .planned) : Supplied plan.replacementNode.isSome plan.steps = true := by
  cases failoverType with
  | planned => exact absurd rfl hne
  | unplanned | replica =>
    cases selection with
    | error => cases h
    | ok =>
      cases h
      rfl
  | leader | networkPartition =>
    cases h
    rfl

private theorem planned_failed_iff {coordinator : NodeId}
    (hplan : plan = .new planId failedNode .planned none coordinator) :
    ((∃ step ∈ (self.executeFailover outcomes plan).steps, step.Failed) ↔
        ∃ step ∈ (self.executeFailover outcomes plan).steps, step.OperationFailed) ↔
      (∃ e, outcomes 0 = .error e) ∨ ∃ e, outcomes 1 = .error e := by
  subst hplan
  cases h0 : outcomes 0 with
  | error =>
    simp [FailoverCoordinator.executeFailover, FailoverPlan.new, FailoverType.schedule,
      executePlanSteps, executeSingleStep, StepRun.calling, StepRun.Failed,
      StepRun.OperationFailed, Except.map, h0]
  | ok =>
    cases h1 : outcomes 1 <;>
      simp [FailoverCoordinator.executeFailover, FailoverPlan.new, FailoverType.schedule,
        executePlanSteps, executeSingleStep, StepRun.calling, StepRun.needing, StepRun.Failed,
        StepRun.OperationFailed, Except.map, h0, h1]

end

/-- A plan runs as it should, unless it is for a planned failover and its first two operations do
not fail. -/
theorem plan_runs_iff (before self : FailoverCoordinator) (selection : Outcome) (planId : String)
    (failedNode : NodeId) (failoverType : FailoverType) (outcomes : Nat → Outcome)
    (plan : FailoverPlan)
    (hplan : before.createFailoverPlan selection planId failedNode failoverType = .ok plan) :
    RunsAsPlanned plan (self.executeFailover outcomes plan) ↔
      failoverType ≠ .planned ∨ (∃ e, outcomes 0 = .error e) ∨ ∃ e, outcomes 1 = .error e := by
  cases failoverType with
  | planned =>
    rw [runsAsPlanned_iff, planned_failed_iff (Except.ok.inj hplan).symm]
    simp
  | unplanned | leader | replica | networkPartition =>
    have hne := supplied_of_created hplan (by decide)
    simp [runsAsPlanned_of_supplied hne]

/-- The failover of a leader, where the second of the operations fails. -/
theorem plan_runs_leader :
    let self : FailoverCoordinator := ⟨⟨1⟩, ∅, 0, []⟩
    let plan : FailoverPlan := .new "plan" ⟨2⟩ .leader none ⟨1⟩
    RunsAsPlanned plan (self.executeFailover
      (fun i => if i = 1 then .error (.consensusFailed "no quorum") else .ok ⟨3⟩) plan) :=
  (plan_runs_iff ⟨⟨1⟩, ∅, 0, []⟩ ⟨⟨1⟩, ∅, 0, []⟩ (.ok ⟨3⟩) "plan" ⟨2⟩ .leader _ _ rfl).mpr
    (Or.inl (by decide))

/-- In a planned failover every operation succeeds, and the plan fails for want of a
replacement. -/
theorem plan_runs_fails :
    let self : FailoverCoordinator := ⟨⟨1⟩, ∅, 0, []⟩
    let plan : FailoverPlan := .new "plan" ⟨2⟩ .planned none ⟨1⟩
    let run := self.executeFailover (fun _ => .ok ⟨3⟩) plan
    self.createFailoverPlan (.ok ⟨3⟩) "plan" ⟨2⟩ .planned = .ok plan ∧
      run.result = .error (.invalidState "No replacement node for data transfer") ∧
      run.steps.map (·.step) = [.notifyClients, .drainConnections, .transferData] ∧
      (¬ ∃ step ∈ run.steps, step.OperationFailed) ∧ ¬ RunsAsPlanned plan run := by
  intro self plan run
  have hres : run.result = .error (.invalidState "No replacement node for data transfer") := rfl
  have hnone : ¬ ∃ step ∈ run.steps, step.OperationFailed := by
    simp [run, self, plan, FailoverCoordinator.executeFailover, FailoverPlan.new,
      FailoverType.schedule, executePlanSteps, executeSingleStep, StepRun.calling,
      StepRun.needing, StepRun.OperationFailed, Except.map]
  refine ⟨rfl, hres, rfl, hnone, fun h => hnone (h.errors.mp ⟨_, hres⟩)⟩

end Kaelix.Cluster.Ha
