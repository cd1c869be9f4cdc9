import Kaelix.Lib.History
import Kaelix.Cluster.Node.Address

/-!
# The replication topology

`ReplicationTopology` of `replication/manager.rs` with its cached number of healthy replicas, and
the periodic pass of `start_recovery_task` that marks the replicas with old heartbeats as failed.

`update_replica` and `remove_replica` move the cached number along with the health flags.  The
pass writes the flags only.

The primary and the roles are written by `update_replica` without a look at each other.
-/

namespace Kaelix.Storage.Replication

open Lib Cluster

inductive ReplicaRole where
  | primary
  | secondary
  | readOnly
  | catchingUp
  | failed
  deriving DecidableEq

/-- A replica, without the address, sequence and lag, which nothing here reads. -/
structure ReplicaNode where
  nodeId : NodeId
  role : ReplicaRole
  lastHeartbeat : Nat
  isHealthy : Bool
  failureCount : Nat
  deriving DecidableEq

namespace ReplicaNode

def new (nodeId : NodeId) (role : ReplicaRole) (now : Nat) : ReplicaNode :=
  { nodeId := nodeId, role := role, lastHeartbeat := now, isHealthy := true, failureCount := 0 }

def markFailed (self : ReplicaNode) : ReplicaNode :=
  { self with isHealthy := false, failureCount := self.failureCount + 1 }

@[simp] theorem markFailed_isHealthy (self : ReplicaNode) :
    self.markFailed.isHealthy = false := rfl

/-- `heartbeat_age`: zero for a heartbeat in the future. -/
def heartbeatAge (self : ReplicaNode) (now : Nat) : Nat := now - self.lastHeartbeat

end ReplicaNode

/-- The replicas, and the number of healthy ones. -/
structure ReplicationTopology where
  primary : Option NodeId
  replicas : HashMap NodeId ReplicaNode
  replicationFactor : Nat
  healthyCount : Nat
  lastUpdated : Nat

namespace ReplicationTopology

def new (replicationFactor : Nat) (now : Nat) : ReplicationTopology :=
  { primary := none
    replicas := ∅
    replicationFactor := replicationFactor
    healthyCount := 0
    lastUpdated := now }

variable (self : ReplicationTopology)

def updateReplica (replica : ReplicaNode) (now : Nat) : ReplicationTopology :=
  let wasHealthy := ((self.replicas.lookup replica.nodeId).map (·.isHealthy)).getD false
  { self with
    primary := if replica.role = .primary then some replica.nodeId else self.primary
    replicas := self.replicas.insert replica.nodeId replica
    healthyCount :=
      if replica.isHealthy && !wasHealthy then self.healthyCount + 1
      else if !replica.isHealthy && wasHealthy then self.healthyCount - 1
      else self.healthyCount
    lastUpdated := now }

def removeReplica (nodeId : NodeId) (now : Nat) : ReplicationTopology × Option ReplicaNode :=
  match self.replicas.lookup nodeId with
  | some replica =>
    ({ self with
        replicas := self.replicas.erase nodeId
        healthyCount :=
          if replica.isHealthy then self.healthyCount - 1 else self.healthyCount
        primary := if self.primary = some nodeId then none else self.primary
        lastUpdated := now }, some replica)
  | none => (self, none)

def healthyReplicas : List ReplicaNode :=
  self.replicas.values.filter (·.isHealthy)

def hasQuorum : Bool :=
  self.healthyCount > self.replicationFactor / 2

/-- The heartbeat of the replica is more than three intervals old. -/
def overdue (heartbeatInterval now : Nat) (replica : ReplicaNode) : Bool :=
  replica.heartbeatAge now > heartbeatInterval * 3

/-- One pass of `start_recovery_task`: the topology it leaves, and the replicas for which
it starts a recovery. -/
def detectFailures (heartbeatInterval now : Nat) : ReplicationTopology × List NodeId :=
  ({ self with
      replicas := self.replicas.mapValues fun replica =>
        if overdue heartbeatInterval now replica then replica.markFailed else replica },
    (self.replicas.values.filter (overdue heartbeatInterval now)).map (·.nodeId))

/-! ## Histories -/

/-- What happens to a topology, with the time at which it happens. -/
inductive TopologyOp where
  | updateReplica (replica : ReplicaNode) (now : Nat)
  | removeReplica (nodeId : NodeId) (now : Nat)
  | detectFailures (heartbeatInterval now : Nat)
  deriving DecidableEq

def step : TopologyOp → ReplicationTopology
  | .updateReplica replica now => self.updateReplica replica now
  | .removeReplica nodeId now => (self.removeReplica nodeId now).1
  | .detectFailures heartbeatInterval now => (self.detectFailures heartbeatInterval now).1

/-- The cached number is that of the healthy replicas, and `has_quorum` says whether these
are more than half of the replication factor. -/
structure Truthful (t : ReplicationTopology) : Prop where
  count : t.healthyCount = t.healthyReplicas.length
  quorum : t.hasQuorum = true ↔ t.replicationFactor / 2 < t.healthyReplicas.length

/-- The detection finds no healthy replica overdue. -/
def MarksNoHealthy : TopologyOp → Prop
  | .detectFailures heartbeatInterval now =>
    ∀ replica ∈ self.healthyReplicas, overdue heartbeatInterval now replica = false
  | _ => True

theorem truthful_iff {t : ReplicationTopology} :
    t.Truthful ↔ t.healthyCount = t.healthyReplicas.length := by
  constructor
  · intro h
    exact h.count
  · intro h
    refine ⟨h, ?_⟩
    rw [← h, hasQuorum, decide_eq_true_eq]

/-! ## How far the number is off -/

/-- The cached number is too high by `d`. -/
def ExceedsBy (d : Nat) : Prop :=
  self.healthyCount = self.healthyReplicas.length + d

variable {t : ReplicationTopology} {d : Nat}

theorem healthyReplicas_length (t : ReplicationTopology) :
    t.healthyReplicas.length = t.replicas.values.countP (·.isHealthy) := by
  rw [healthyReplicas, List.countP_eq_length_filter]

private theorem healthy_erase_add (t : ReplicationTopology) (nodeId : NodeId) :
    t.healthyReplicas.length =
      (HashMap.values (t.replicas.erase nodeId)).countP (·.isHealthy) +
        (if ((t.replicas.lookup nodeId).map (·.isHealthy)).getD false then 1 else 0) := by
  rw [healthyReplicas_length]
  cases hlook : t.replicas.lookup nodeId with
  | none =>
    rw [HashMap.erase_of_lookup_none hlook]
    rfl
  | some => exact HashMap.countP_values_erase hlook _

theorem ExceedsBy.updateReplica (h : t.ExceedsBy d) (replica : ReplicaNode) (now : Nat) :
    (t.updateReplica replica now).ExceedsBy d := by
  have hold := t.healthy_erase_add replica.nodeId
  have hnew : (t.updateReplica replica now).healthyReplicas.length = _ :=
    (healthyReplicas_length _).trans
      (HashMap.countP_values_insert t.replicas replica.nodeId replica (·.isHealthy))
  rw [ExceedsBy] at h ⊢
  rw [hnew, ReplicationTopology.updateReplica]
  dsimp only
  generalize ((t.replicas.lookup replica.nodeId).map (·.isHealthy)).getD false = was at hold ⊢
  cases replica.isHealthy <;> cases was <;> simp at hold ⊢ <;> omega

theorem ExceedsBy.removeReplica (h : t.ExceedsBy d) (nodeId : NodeId) (now : Nat) :
    (t.removeReplica nodeId now).1.ExceedsBy d := by
  have hold := t.healthy_erase_add nodeId
  rw [ReplicationTopology.removeReplica]
  cases hlook : t.replicas.lookup nodeId with
  | none => exact h
  | some replica =>
    rw [hlook, Option.map_some, Option.getD_some] at hold
    rw [ExceedsBy] at h ⊢
    rw [healthyReplicas_length]
    dsimp only
    cases hwas : replica.isHealthy <;> simp [hwas] at hold ⊢ <;> omega

def marked (heartbeatInterval now : Nat) : Nat :=
  self.healthyReplicas.countP (overdue heartbeatInterval now)

private theorem length_healthy_split (overdue : ReplicaNode → Bool) (l : List ReplicaNode) :
    (l.filter (·.isHealthy)).length =
      ((l.map fun replica => if overdue replica then replica.markFailed else replica).filter
        (·.isHealthy)).length + (l.filter (·.isHealthy)).countP overdue := by
  induction l with
  | nil => rfl
  | cons replica l ih =>
    rw [List.map_cons, List.filter_cons, List.filter_cons]
    cases hhy : replica.isHealthy <;> cases hover : overdue replica <;>
      simp [hhy, hover] <;> omega

theorem ExceedsBy.detectFailures (h : t.ExceedsBy d) (heartbeatInterval now : Nat) :
    (t.detectFailures heartbeatInterval now).1.ExceedsBy
      (d + t.marked heartbeatInterval now) := by
  have hsplit : t.healthyReplicas.length =
      (t.detectFailures heartbeatInterval now).1.healthyReplicas.length +
        t.marked heartbeatInterval now := by
    rw [marked, healthyReplicas, healthyReplicas, ReplicationTopology.detectFailures]
    dsimp only
    rw [HashMap.values_mapValues]
    exact length_healthy_split (overdue heartbeatInterval now) t.replicas.values
  rw [ExceedsBy] at h ⊢
  have hcnt : (t.detectFailures heartbeatInterval now).1.healthyCount = t.healthyCount := rfl
  omega

private theorem marked_eq_zero_iff {heartbeatInterval now : Nat} :
    t.marked heartbeatInterval now = 0 ↔
      t.MarksNoHealthy (.detectFailures heartbeatInterval now) := by
  simp [marked, MarksNoHealthy, List.countP_eq_zero]

theorem ExceedsBy.step (h : t.ExceedsBy d) (op : TopologyOp) :
    ∃ d', (t.step op).ExceedsBy d' ∧ d ≤ d' ∧ (d' = d ↔ t.MarksNoHealthy op) := by
  cases op with
  | updateReplica replica now =>
    exact ⟨d, h.updateReplica replica now, Nat.le_refl d, iff_of_true rfl trivial⟩
  | removeReplica nodeId now =>
    exact ⟨d, h.removeReplica nodeId now, Nat.le_refl d, iff_of_true rfl trivial⟩
  | detectFailures heartbeatInterval now =>
    refine ⟨_, h.detectFailures heartbeatInterval now, Nat.le_add_right _ _, ?_⟩
    rw [← marked_eq_zero_iff]
    omega

theorem ExceedsBy.foldl (h : t.ExceedsBy d) (ops : List TopologyOp) :
    (ops.foldl ReplicationTopology.step t).Truthful ↔
      d = 0 ∧ EachStep ReplicationTopology.step MarksNoHealthy t ops := by
  induction ops generalizing t d with
  | nil =>
    rw [List.foldl_nil, truthful_iff, show t.healthyCount = _ from h]
    constructor
    · intro hd
      exact ⟨by omega, eachStep_nil⟩
    · rintro ⟨rfl, -⟩
      rfl
  | cons op ops ih =>
    obtain ⟨d', hd', hle, hmarks⟩ := h.step op
    rw [List.foldl_cons, ih hd', eachStep_cons, ← hmarks]
    constructor
    · rintro ⟨rfl, hrest⟩
      exact ⟨by omega, by omega, hrest⟩
    · rintro ⟨rfl, hzero, hrest⟩
      exact ⟨hzero, hrest⟩

/-- In a state reached from a new topology, the number of healthy replicas and
`has_quorum` are right iff no pass on the way marked a healthy replica. -/
theorem healthyCount_truthful_iff (replicationFactor now : Nat) (ops : List TopologyOp) :
    (ops.foldl step (new replicationFactor now)).Truthful ↔
      EachStep step MarksNoHealthy (new replicationFactor now) ops := by
  have hnew : (new replicationFactor now).ExceedsBy 0 := rfl
  rw [hnew.foldl ops]
  exact and_iff_right rfl

def twoOverdue : List TopologyOp :=
  [.updateReplica (.new ⟨1⟩ .primary 0) 0, .updateReplica (.new ⟨2⟩ .secondary 0) 0,
    .detectFailures 1 10]

/-- No replica is healthy, but two are counted and there is a quorum of three. -/
theorem healthyCount_not_truthful :
    (twoOverdue.foldl step (new 3 0)).healthyReplicas = [] ∧
      (twoOverdue.foldl step (new 3 0)).healthyCount = 2 ∧
      (twoOverdue.foldl step (new 3 0)).hasQuorum = true ∧
      ¬ (twoOverdue.foldl step (new 3 0)).Truthful := by
  refine ⟨by decide, by decide, by decide, fun h => ?_⟩
  exact absurd h.count (by decide)

/-! ## The primary -/

def getPrimary : Option ReplicaNode :=
  self.primary.bind fun id => self.replicas.lookup id

/-- The node is a known replica with the role of the primary. -/
def HasPrimaryRole (nodeId : NodeId) : Prop :=
  ∃ replica, self.replicas.lookup nodeId = some replica ∧ replica.role = .primary

/-- At most one replica has the role of the primary, and `primary` is that replica. -/
structure SinglePrimary (t : ReplicationTopology) : Prop where
  unique : ∀ a b, t.HasPrimaryRole a → t.HasPrimaryRole b → a = b
  pointer : ∀ p, t.primary = some p ↔ t.HasPrimaryRole p

/-- A replica gets the role of the primary only if there is no other primary, and the
primary gets no other role. -/
def KeepsPrimary : TopologyOp → Prop
  | .updateReplica replica _ =>
    if replica.role = .primary then
      self.primary = none ∨ self.primary = some replica.nodeId
    else self.primary ≠ some replica.nodeId
  | _ => True

theorem singlePrimary_iff : t.SinglePrimary ↔ ∀ p, t.primary = some p ↔ t.HasPrimaryRole p := by
  constructor
  · intro h
    exact h.pointer
  · intro h
    refine ⟨fun a b ha hb => ?_, h⟩
    have heq := ((h a).mpr ha).symm.trans ((h b).mpr hb)
    exact Option.some.inj heq

theorem SinglePrimary.getPrimary_iff (h : t.SinglePrimary) (replica : ReplicaNode) :
    t.getPrimary = some replica ↔
      ∃ p, t.replicas.lookup p = some replica ∧ replica.role = .primary := by
  rw [getPrimary, Option.bind_eq_some_iff]
  refine exists_congr fun p => ?_
  rw [h.pointer p]
  constructor
  · rintro ⟨⟨r, hr, hrole⟩, hlook⟩
    obtain rfl : r = replica := Option.some.inj (hr.symm.trans hlook)
    exact ⟨hlook, hrole⟩
  · rintro ⟨hlook, hrole⟩
    exact ⟨⟨replica, hlook, hrole⟩, hlook⟩

private theorem hasPrimaryRole_updateReplica (t : ReplicationTopology) (replica : ReplicaNode)
    (now : Nat) (p : NodeId) :
    (t.updateReplica replica now).HasPrimaryRole p ↔
      if p = replica.nodeId then replica.role = .primary else t.HasPrimaryRole p := by
  have hlook : (t.updateReplica replica now).replicas.lookup p =
      if p = replica.nodeId then some replica else t.replicas.lookup p :=
    HashMap.lookup_insert_eq t.replicas replica.nodeId p replica
  rw [HasPrimaryRole, hlook]
  by_cases hp : p = replica.nodeId
  · rw [if_pos hp, if_pos hp]
    simp
  · rw [if_neg hp, if_neg hp]
    rfl

section

variable (h : t.SinglePrimary)
include h

theorem SinglePrimary.updateReplica_iff (replica : ReplicaNode) (now : Nat) :
    (t.updateReplica replica now).SinglePrimary ↔
      t.KeepsPrimary (.updateReplica replica now) := by
  have hprim : (t.updateReplica replica now).primary =
      if replica.role = .primary then some replica.nodeId else t.primary := rfl
  rw [singlePrimary_iff, KeepsPrimary]
  simp only [hasPrimaryRole_updateReplica, ← h.pointer, hprim]
  by_cases hrole : replica.role = .primary
  · simp only [if_pos hrole]
    constructor
    · intro hall
      cases hold : t.primary with
      | none => exact .inl rfl
      | some q =>
        right
        by_contra hne
        have hq : ¬ q = replica.nodeId := fun heq => hne (congrArg some heq)
        have hcontra := (hall q).mpr (by rw [if_neg hq, hold])
        exact hq (Option.some.inj hcontra).symm
    · intro hkeeps p
      by_cases hp : p = replica.nodeId
      · rw [if_pos hp, hp]
        exact iff_of_true rfl hrole
      · rw [if_neg hp]
        refine iff_of_false (fun heq => hp (Option.some.inj heq).symm) (fun heq => ?_)
        rcases hkeeps with hnone | hsome
        · cases hnone.symm.trans heq
        · exact hp (Option.some.inj (heq.symm.trans hsome))
  · simp only [if_neg hrole]
    constructor
    · intro hall heq
      have hcontra := (hall replica.nodeId).mp heq
      rw [if_pos rfl] at hcontra
      exact hrole hcontra
    · intro hkeeps p
      by_cases hp : p = replica.nodeId
      · rw [if_pos hp, hp]
        exact iff_of_false hkeeps hrole
      · rw [if_neg hp]

theorem SinglePrimary.removeReplica (nodeId : NodeId) (now : Nat) :
    (t.removeReplica nodeId now).1.SinglePrimary := by
  rw [ReplicationTopology.removeReplica]
  cases hlook : t.replicas.lookup nodeId with
  | none => exact h
  | some =>
    rw [singlePrimary_iff]
    intro p
    have herase : (t.replicas.erase nodeId).lookup p =
        if p = nodeId then none else t.replicas.lookup p :=
      HashMap.lookup_erase_eq t.replicas nodeId p
    rw [HasPrimaryRole]
    dsimp only
    rw [herase]
    by_cases hp : p = nodeId
    · rw [if_pos hp, hp]
      refine iff_of_false ?_ (by simp)
      split
      · simp
      · next hne => exact hne
    · rw [if_neg hp, ← HasPrimaryRole, ← h.pointer]
      split
      · next heq =>
          rw [heq]
          exact iff_of_false (by simp) (fun hsome => hp (Option.some.inj hsome).symm)
      · exact Iff.rfl

theorem SinglePrimary.detectFailures (heartbeatInterval now : Nat) :
    (t.detectFailures heartbeatInterval now).1.SinglePrimary := by
  rw [singlePrimary_iff]
  intro p
  have hlook : (t.detectFailures heartbeatInterval now).1.replicas.lookup p =
      (t.replicas.lookup p).map fun replica =>
        if overdue heartbeatInterval now replica then replica.markFailed else replica :=
    HashMap.lookup_mapValues _ t.replicas p
  have hprim : (t.detectFailures heartbeatInterval now).1.primary = t.primary := rfl
  rw [hprim, h.pointer, HasPrimaryRole, HasPrimaryRole, hlook]
  constructor
  · rintro ⟨replica, hrepl, hrole⟩
    refine ⟨_, Option.map_eq_some_iff.mpr ⟨replica, hrepl, rfl⟩, ?_⟩
    split <;> exact hrole
  · rintro ⟨replica', hmap, hrole⟩
    obtain ⟨replica, hrepl, rfl⟩ := Option.map_eq_some_iff.mp hmap
    refine ⟨replica, hrepl, ?_⟩
    split at hrole <;> exact hrole

theorem SinglePrimary.step_iff (op : TopologyOp) :
    (t.step op).SinglePrimary ↔ t.KeepsPrimary op := by
  cases op with
  | updateReplica replica now => exact h.updateReplica_iff replica now
  | removeReplica nodeId now => exact iff_of_true (h.removeReplica nodeId now) trivial
  | detectFailures heartbeatInterval now =>
    exact iff_of_true (h.detectFailures heartbeatInterval now) trivial

end

private theorem singlePrimary_new (replicationFactor now : Nat) :
    (new replicationFactor now).SinglePrimary := by
  rw [singlePrimary_iff]
  intro p
  refine iff_of_false (by simp [new]) ?_
  rintro ⟨replica, hlook, -⟩
  cases hlook

/-- In every state on the way from a new topology there is at most one primary, and
`primary` is that replica, exactly when no update gives a replica the role of the primary
next to another primary, or the primary another role. -/
theorem single_primary_iff (replicationFactor now : Nat) (ops : List TopologyOp) :
    Always step SinglePrimary (new replicationFactor now) ops ↔
      EachStep step KeepsPrimary (new replicationFactor now) ops :=
  always_iff_eachStep (I := fun _ => True) trivial (singlePrimary_new replicationFactor now)
    (fun _ _ _ _ _ => trivial) (fun _ op _ h => h.step_iff op)

/-- The second replica becomes primary, and the first keeps its role. -/
theorem two_primaries :
    ¬ ∀ (replicationFactor now : Nat) (ops : List TopologyOp),
      Always step SinglePrimary (new replicationFactor now) ops := by
  intro hsingle
  have h := (hsingle 3 0 [.updateReplica (.new ⟨1⟩ .primary 0) 0,
    .updateReplica (.new ⟨2⟩ .primary 0) 0]).last
  have heq := h.unique ⟨1⟩ ⟨2⟩ ⟨_, rfl, rfl⟩ ⟨_, rfl, rfl⟩
  exact absurd heq (by decide)

end ReplicationTopology

end Kaelix.Storage.Replication
