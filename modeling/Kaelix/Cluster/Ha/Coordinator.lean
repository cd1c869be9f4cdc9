import Kaelix.Cluster.Node.Registry

/-!
# The failover coordinator

`FailoverCoordinator` of `ha/coordinator.rs`: plans for the five types of failover, and their
execution, step by step.  A step calls at most one of the primitive operations of the coordinator.

How these end is arbitrary; the ones that select a node give one if they do not fail.  An execution
does not take longer than the timeout.  The duration and the time of a step are left out, as is the
channel of an execution, which is never used.
-/

namespace Kaelix.Cluster.Ha

open Lib
open Cluster.Node (displayNodeId)

inductive FailoverError where
  | noSuitableReplacement (nodeId : NodeId)
  | coordinationTimeout (operation : String)
  | invalidState (state : String)
  | consensusFailed (reason : String)
  | replicationFailed (reason : String)
  deriving DecidableEq

def FailoverError.display : FailoverError → String
  | .noSuitableReplacement nodeId =>
    let text := displayNodeId nodeId
    s!"No suitable replacement for node {text}"
  | .coordinationTimeout operation => s!"Failover coordination timeout: {operation}"
  | .invalidState state => s!"Invalid failover state: {state}"
  | .consensusFailed reason => s!"Consensus failure: {reason}"
  | .replicationFailed reason => s!"Replication failure: {reason}"

inductive FailoverType where
  | planned
  | unplanned
  | leader
  | replica
  | networkPartition
  deriving DecidableEq

/-- The steps a plan is made of. -/
inductive FailoverStep where
  | detectFailure
  | selectReplacement
  | promoteReplacement
  | updateRouting
  | notifyClients
  | validateFailover
  | drainConnections
  | transferData
  | initiateLeaderElection
  | conductElection
  | updateConsensus
  | synchronizeData
  | updateReplication
  | detectPartition
  | selectActivePartition
  | quiescePartitions
  | reconfigureCluster
  deriving DecidableEq

/-- `FailoverPlan`; durations are in milliseconds, and the time of creation is left out. -/
structure FailoverPlan where
  planId : String
  failedNode : NodeId
  failoverType : FailoverType
  replacementNode : Option NodeId
  steps : List FailoverStep
  expectedDuration : Nat
  coordinator : NodeId
  deriving DecidableEq

/-- The steps of a type of failover, and how long they are expected to take. -/
def FailoverType.schedule : FailoverType → List FailoverStep × Nat
  | .planned =>
    ([.notifyClients, .drainConnections, .transferData, .updateRouting, .validateFailover], 2000)
  | .unplanned =>
    ([.detectFailure, .selectReplacement, .promoteReplacement, .updateRouting, .notifyClients,
      .validateFailover], 500)
  | .leader =>
    ([.initiateLeaderElection, .conductElection, .updateConsensus, .notifyClients,
      .validateFailover], 200)
  | .replica =>
    ([.selectReplacement, .synchronizeData, .promoteReplacement, .updateReplication,
      .validateFailover], 300)
  | .networkPartition =>
    ([.detectPartition, .selectActivePartition, .quiescePartitions, .reconfigureCluster,
      .validateFailover], 1000)

def FailoverPlan.new (planId : String) (failedNode : NodeId) (failoverType : FailoverType)
    (replacementNode : Option NodeId) (coordinator : NodeId) : FailoverPlan :=
  { planId, failedNode, failoverType, replacementNode
    steps := failoverType.schedule.1
    expectedDuration := failoverType.schedule.2
    coordinator }

/-- The call a step makes. -/
inductive Operation where
  | selectReplacementNode (failedNode : NodeId)
  | promoteNodeToPrimary (node : NodeId)
  | updateRoutingTables (failedNode : NodeId) (replacement : Option NodeId)
  | notifyClientsOfFailover (failedNode : NodeId) (replacement : Option NodeId)
  | validateFailoverSuccess (failedNode : NodeId) (replacement : Option NodeId)
  | drainNodeConnections (node : NodeId)
  | transferData (fromNode toNode : NodeId)
  | initiateLeaderElection
  | conductConsensusElection
  | updateConsensusState (newLeader : Option NodeId)
  | synchronizeReplicaData (replica : NodeId)
  | updateReplicationTopology (failedNode : NodeId) (replacement : Option NodeId)
  | detectNetworkPartition
  | selectActivePartition
  | quiesceInactivePartitions
  | reconfigureAfterPartition
  deriving DecidableEq

/-- How an operation ends.  The node counts where the operation returns one. -/
abbrev Outcome := Except FailoverError NodeId

/-- What a step does: the operation that it calls, with its end, and what the step returns. -/
structure StepRun where
  step : FailoverStep
  called : Option (Operation × Outcome)
  result : Except FailoverError (Option NodeId)

section

variable (step : FailoverStep)

variable (outcome : Outcome)

/-- A step that calls an operation and returns the replacement that there is. -/
def StepRun.calling (operation : Operation) (replacement : Option NodeId) : StepRun :=
  { step, called := some (operation, outcome), result := outcome.map fun _ => replacement }

def StepRun.obtaining (operation : Operation) : StepRun :=
  { step, called := some (operation, outcome), result := outcome.map some }

def StepRun.needing (operation : NodeId → Operation) (state : String) : Option NodeId → StepRun
  | some replacement => calling step outcome (operation replacement) (some replacement)
  | none => { step, called := none, result := .error (.invalidState state) }

end

/-- `FailoverCoordinator::execute_single_step`, where an operation that it calls has the given
outcome. -/
def executeSingleStep (outcome : Outcome) (step : FailoverStep) (plan : FailoverPlan)
    (currentReplacement : Option NodeId) : StepRun :=
  match step with
  | .detectFailure => { step, called := none, result := .ok currentReplacement }
  | .selectReplacement =>
    if currentReplacement.isSome then { step, called := none, result := .ok currentReplacement }
    else .obtaining step outcome (.selectReplacementNode plan.failedNode)
  | .promoteReplacement =>
    .needing step outcome .promoteNodeToPrimary "No replacement node to promote" currentReplacement
  | .updateRouting =>
    .calling step outcome (.updateRoutingTables plan.failedNode currentReplacement)
      currentReplacement
  | .notifyClients =>
    .calling step outcome (.notifyClientsOfFailover plan.failedNode currentReplacement)
      currentReplacement
  | .validateFailover =>
    .calling step outcome (.validateFailoverSuccess plan.failedNode currentReplacement)
      currentReplacement
  | .drainConnections =>
    .calling step outcome (.drainNodeConnections plan.failedNode) currentReplacement
  | .transferData =>
    .needing step outcome (.transferData plan.failedNode) "No replacement node for data transfer"
      currentReplacement
  | .initiateLeaderElection => .calling step outcome .initiateLeaderElection currentReplacement
  | .conductElection => .obtaining step outcome .conductConsensusElection
  | .updateConsensus =>
    .calling step outcome (.updateConsensusState currentReplacement) currentReplacement
  | .synchronizeData =>
    .needing step outcome .synchronizeReplicaData "No replacement node for data sync"
      currentReplacement
  | .updateReplication =>
    .calling step outcome (.updateReplicationTopology plan.failedNode currentReplacement)
      currentReplacement
  | .detectPartition => .calling step outcome .detectNetworkPartition currentReplacement
  | .selectActivePartition => .obtaining step outcome .selectActivePartition
  | .quiescePartitions => .calling step outcome .quiesceInactivePartitions currentReplacement
  | .reconfigureCluster => .calling step outcome .reconfigureAfterPartition currentReplacement

/-- What a step came to. -/
structure StepResult where
  step : FailoverStep
  success : Bool
  error : Option String
  deriving DecidableEq

/-- A plan under way. -/
structure FailoverExecution where
  plan : FailoverPlan
  currentStep : Nat
  stepResults : List StepResult
  deriving DecidableEq

abbrev Executions := HashMap String FailoverExecution

/-- The plans at work, and how earlier ones ended. -/
structure FailoverCoordinator where
  coordinatorId : NodeId
  activeExecutions : Executions
  executionCounter : Nat
  results : List (Except FailoverError NodeId)

/-- The result of a step on record. -/
def recordStep (planId : String) (stepIndex : Nat) (run : StepRun) (executions : Executions) :
    Executions :=
  match executions.lookup planId with
  | some execution =>
    AList.insert planId
      { execution with
        currentStep := stepIndex + 1
        stepResults := execution.stepResults ++
          [match run.result with
            | .ok _ => { step := run.step, success := true, error := none }
            | .error e => { step := run.step, success := false, error := some e.display }] }
      executions
  | none => executions

/-- What the execution of a plan does: its steps, what it returns, and what it leaves. -/
structure PlanRun where
  steps : List StepRun
  result : Except FailoverError (Option NodeId)
  executions : Executions

/-- The loop of `execute_plan_steps` over the steps that are left, after a number of steps and of
operations. -/
def executePlanSteps (outcomes : Nat → Outcome) (plan : FailoverPlan) (stepIndex calls : Nat)
    (replacementNode : Option NodeId) (executions : Executions) : List FailoverStep → PlanRun
  | [] => { steps := [], result := .ok replacementNode, executions }
  | step :: steps =>
    let run := executeSingleStep (outcomes calls) step plan replacementNode
    let executions := recordStep plan.planId stepIndex run executions
    match run.result with
    | .error e => { steps := [run], result := .error e, executions }
    | .ok new =>
      let rest := executePlanSteps outcomes plan (stepIndex + 1)
        (calls + run.called.toList.length) (new.or replacementNode) executions steps
      { rest with steps := run :: rest.steps }

/-- What an execution does, returns and leaves. -/
structure FailoverRun where
  steps : List StepRun
  result : Except FailoverError NodeId
  coordinator : FailoverCoordinator

namespace FailoverCoordinator

variable (self : FailoverCoordinator)

/-- `FailoverCoordinator::create_failover_plan`, with the id that is generated, where the selection
of a replacement ends as given. -/
def createFailoverPlan (selection : Outcome) (planId : String)
    (failedNode : NodeId) (failoverType : FailoverType) : Except FailoverError FailoverPlan := do
  let replacementNode ←
    match failoverType with
    | .unplanned | .replica => selection.map some
    | .planned | .leader | .networkPartition => pure none
  return .new planId failedNode failoverType replacementNode self.coordinatorId

/-- `FailoverCoordinator::execute_failover`, where the operations end as given, one after
another. -/
def executeFailover (outcomes : Nat → Outcome) (plan : FailoverPlan) : FailoverRun :=
  let execution : FailoverExecution := { plan, currentStep := 0, stepResults := [] }
  let run := executePlanSteps outcomes plan 0 0 plan.replacementNode
    (self.activeExecutions.insert plan.planId execution) plan.steps
  let result := run.result.map fun replacementNode => replacementNode.getD plan.failedNode
  { steps := run.steps
    result
    coordinator :=
      { self with
        activeExecutions := run.executions.erase plan.planId
        executionCounter := self.executionCounter + 1
        results := self.results ++ [result] } }

end FailoverCoordinator

end Kaelix.Cluster.Ha
