import Kaelix.Lib.Register
import Kaelix.Lib.Run
import Mathlib.Algebra.GroupWithZero.Nat
import Mathlib.Data.Finset.Card

/-!
# Quorum reads and writes

`QuorumManager` of `replication/quorum.rs`, and replicas behind it.

The manager asks every available replica and counts the answers; what a replica answers is up to
the function it is given.  A replica here keeps the write with the highest version that reached it
(`Register.write`).  A write may reach a replica that reported a failure, or none, and it may do
so later.
-/

namespace Kaelix.Storage.Replication

open Lib

abbrev Bytes := List UInt8

inductive ReplicationError where
  | network (message : String)
  | configurationError (message : String)
  | quorumNotAvailable (message : String)
  | quorumNotAchieved (message : String)
  | operationTimeout
  deriving DecidableEq

/-- How many replicas must answer. -/
structure QuorumConfig where
  writeQuorum : Nat
  readQuorum : Nat
  totalReplicas : Nat
  deriving DecidableEq

namespace QuorumConfig

def validate (c : QuorumConfig) : Except ReplicationError Unit :=
  if c.writeQuorum = 0 then
    .error (.configurationError "write_quorum must be greater than 0")
  else if c.readQuorum = 0 then
    .error (.configurationError "read_quorum must be greater than 0")
  else if c.writeQuorum > c.totalReplicas then
    .error (.configurationError "write_quorum cannot exceed total_replicas")
  else if c.readQuorum > c.totalReplicas then
    .error (.configurationError "read_quorum cannot exceed total_replicas")
  else .ok ()

/-- `QuorumConfig::supports_strong_consistency`, with the sum of a `usize`. -/
def supportsStrongConsistency (c : QuorumConfig) : Bool :=
  (c.writeQuorum + c.readQuorum) % 2 ^ 64 > c.totalReplicas

def default : QuorumConfig := { writeQuorum := 2, readQuorum := 1, totalReplicas := 3 }

theorem lt_of_supportsStrongConsistency {c : QuorumConfig}
    (h : c.supportsStrongConsistency = true) : c.totalReplicas < c.writeQuorum + c.readQuorum := by
  have hlt : c.totalReplicas < (c.writeQuorum + c.readQuorum) % 2 ^ 64 := of_decide_eq_true h
  exact Nat.lt_of_lt_of_le hlt (Nat.mod_le _ _)

end QuorumConfig

section

variable {N : Type} [DecidableEq N]

/-- Who answered and who did not. -/
structure QuorumResult (N : Type) where
  successfulResponses : Nat
  failedResponses : Nat
  quorumAchieved : Bool
  respondingReplicas : List N
  failedReplicas : List N
  deriving DecidableEq

/-- A replica's answer to a read. -/
structure ReadResponse (N : Type) where
  data : Option Bytes
  version : Nat
  sourceNode : N
  timestamp : Nat
  deriving DecidableEq

/-- A replica's answer to a write. -/
structure WriteResponse (N : Type) where
  success : Bool
  version : Nat
  sourceNode : N
  error : Option String
  deriving DecidableEq

structure QuorumMetrics where
  totalReads : Nat := 0
  totalWrites : Nat := 0
  successfulReads : Nat := 0
  successfulWrites : Nat := 0
  quorumFailures : Nat := 0
  deriving DecidableEq

/-- `QuorumManager`; the set of available replicas in its order of iteration. -/
structure QuorumManager (N : Type) where
  config : QuorumConfig
  availableReplicas : List N
  metrics : QuorumMetrics

/-- `Iterator::max_by_key`: the last element of those with the highest key. -/
def maxByKey {α : Type} (key : α → Nat) : List α → Option α
  | [] => none
  | a :: as => some (as.foldl (Register.write key) a)

namespace QuorumManager

def new (config : QuorumConfig) : Except ReplicationError (QuorumManager N) := do
  config.validate
  .ok { config, availableReplicas := [], metrics := {} }

def recordRead (m : QuorumMetrics) (quorumAchieved : Bool) : QuorumMetrics :=
  if quorumAchieved then
    { m with totalReads := m.totalReads + 1, successfulReads := m.successfulReads + 1 }
  else
    { m with totalReads := m.totalReads + 1, quorumFailures := m.quorumFailures + 1 }

def recordWrite (m : QuorumMetrics) (quorumAchieved : Bool) : QuorumMetrics :=
  if quorumAchieved then
    { m with totalWrites := m.totalWrites + 1, successfulWrites := m.successfulWrites + 1 }
  else
    { m with totalWrites := m.totalWrites + 1, quorumFailures := m.quorumFailures + 1 }

variable (m : QuorumManager N)

def selectedReplicas : List N :=
  if m.availableReplicas.length ≤ m.config.totalReplicas then m.availableReplicas
  else m.availableReplicas.take m.config.totalReplicas

variable (readFn : N → Except ReplicationError (ReadResponse N))

def readResponses (replicas : List N) : List (N × ReadResponse N) :=
  replicas.filterMap fun n => (readFn n).toOption.map fun response => (n, response)

/-- `QuorumManager::quorum_read`; `readFn` gives the result for each replica, an error or
a timeout included. -/
def quorumRead : Except ReplicationError (Option Bytes × QuorumResult N) × QuorumManager N :=
  if m.availableReplicas.length < m.config.readQuorum then
    (.error (.quorumNotAvailable
        s!"Not enough replicas available: {m.availableReplicas.length} < {m.config.readQuorum}"),
      { m with metrics := recordRead m.metrics false })
  else
    let selected := m.selectedReplicas
    let successful := readResponses readFn selected
    let failed := selected.filter fun n => (readFn n).toOption.isNone
    let quorumAchieved := decide (successful.length ≥ m.config.readQuorum)
    let manager := { m with metrics := recordRead m.metrics quorumAchieved }
    if quorumAchieved then
      let latest := (maxByKey (fun r => r.2.version) successful).map Prod.snd
      (.ok (latest.bind ReadResponse.data,
        { successfulResponses := successful.length, failedResponses := failed.length,
          quorumAchieved, respondingReplicas := successful.map Prod.fst,
          failedReplicas := failed }), manager)
    else
      (.error (.quorumNotAchieved
        s!"Read quorum not achieved: {successful.length} < {m.config.readQuorum}"), manager)

variable (writeFn : N → Except ReplicationError (WriteResponse N))

def writeSuccesses (replicas : List N) : List N :=
  replicas.filter fun n => ((writeFn n).toOption.map WriteResponse.success).getD false

/-- Succeeds if enough replicas do. -/
def quorumWrite : Except ReplicationError (QuorumResult N) × QuorumManager N :=
  let available := m.availableReplicas
  if available.length < m.config.writeQuorum then
    (.error (.quorumNotAvailable
        s!"Not enough replicas available for write: {available.length} < {m.config.writeQuorum}"),
      { m with metrics := recordWrite m.metrics false })
  else
    let successful := writeSuccesses writeFn available
    let failed := available.filter fun n => n ∉ successful
    let quorumAchieved := decide (successful.length ≥ m.config.writeQuorum)
    let manager := { m with metrics := recordWrite m.metrics quorumAchieved }
    if quorumAchieved then
      (.ok
        { successfulResponses := successful.length, failedResponses := failed.length,
          quorumAchieved, respondingReplicas := successful, failedReplicas := failed },
        manager)
    else
      (.error (.quorumNotAchieved
        s!"Write quorum not achieved: {successful.length} < {m.config.writeQuorum}"), manager)

end QuorumManager

end

/-! ### Replicas -/

/-- What a replica holds for a key. -/
structure Stored where
  version : Nat
  data : Option Bytes
  timestamp : Nat
  deriving DecidableEq

/-- A write as the replicas get it. -/
structure Write where
  key : String
  version : Nat
  data : Bytes
  timestamp : Nat
  deriving DecidableEq

def Write.stored (w : Write) : Stored :=
  { version := w.version, data := some w.data, timestamp := w.timestamp }

/-- A manager and its replicas, with the writes so far and those that returned `Ok`. -/
structure ReplicaSet (N : Type) where
  manager : QuorumManager N
  replicas : N → String → Stored
  issued : List Write
  completed : List Write

/-- What can happen.  In a write, `reached` are the available replicas that it reaches at
once; `late` is a write that reaches a replica some time afterwards.  In a read, `lost`
are the replicas that fail or time out. -/
inductive QuorumEvent (N : Type) where
  | available (replicas : List N)
  | write (w : Write) (writeFn : N → Except ReplicationError (WriteResponse N))
      (reached : N → Bool)
  | late (node : N) (w : Write)
  | read (key : String) (lost : N → Option ReplicationError)

namespace ReplicaSet

variable {N : Type} [DecidableEq N]

def new (manager : QuorumManager N) (initial : String → Stored) : ReplicaSet N :=
  { manager, replicas := fun _ => initial, issued := [], completed := [] }

/-- The replicas that a write reaches. -/
def deliver (replicas : N → String → Stored) (w : Write) (reached : N → Bool) :
    N → String → Stored :=
  fun n key =>
    if reached n ∧ key = w.key then Register.write Stored.version (replicas n key) w.stored
    else replicas n key

variable (s : ReplicaSet N)

def readFn (key : String) (lost : N → Option ReplicationError) (n : N) :
    Except ReplicationError (ReadResponse N) :=
  match lost n with
  | some e => .error e
  | none => .ok
    { data := (s.replicas n key).data, version := (s.replicas n key).version,
      sourceNode := n, timestamp := (s.replicas n key).timestamp }

/-- A write has a version above the initial one and those of all writes before. -/
def Increases (initial : String → Stored) (s : ReplicaSet N) (w : Write) : Prop :=
  (initial w.key).version < w.version ∧ ∀ v ∈ s.issued, v.version < w.version

instance (initial : String → Stored) (s : ReplicaSet N) (w : Write) :
    Decidable (s.Increases initial w) :=
  inferInstanceAs (Decidable (_ ∧ _))

/-- A write reaches every replica that reports success. -/
def Reports (writeFn : N → Except ReplicationError (WriteResponse N)) (reached : N → Bool) : Prop :=
  ∀ n ∈ QuorumManager.writeSuccesses writeFn s.manager.availableReplicas, reached n = true

instance (s : ReplicaSet N) (writeFn : N → Except ReplicationError (WriteResponse N))
    (reached : N → Bool) : Decidable (s.Reports writeFn reached) :=
  inferInstanceAs (Decidable (∀ _ ∈ _, _))

/-- The replicas after a write: nothing is sent when too few of them are available. -/
def afterWrite (w : Write) (reached : N → Bool) : N → String → Stored :=
  if s.manager.availableReplicas.length < s.manager.config.writeQuorum then s.replicas
  else deliver s.replicas w fun n => decide (n ∈ s.manager.availableReplicas) && reached n

/-- The replicas after an event. -/
def step (nodes : Finset N) (initial : String → Stored) (s : ReplicaSet N) :
    QuorumEvent N → Option (ReplicaSet N)
  | .available replicas =>
    if replicas.Nodup ∧ ∀ n ∈ replicas, n ∈ nodes then
      some { s with manager := { s.manager with availableReplicas := replicas } }
    else none
  | .write w writeFn reached =>
    if s.Increases initial w ∧ s.Reports writeFn reached then
      let r := s.manager.quorumWrite writeFn
      some
        { manager := r.2
          replicas := s.afterWrite w reached
          issued := s.issued ++ [w]
          completed := if r.1.toOption.isSome then s.completed ++ [w] else s.completed }
    else none
  | .late node w =>
    if w ∈ s.issued then
      some { s with replicas := deliver s.replicas w fun n => decide (n = node) }
    else none
  | .read key lost =>
    some { s with manager := (s.manager.quorumRead (s.readFn key lost)).2 }

end ReplicaSet

end Kaelix.Storage.Replication
