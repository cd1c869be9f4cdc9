import Kaelix.Cluster.Consensus.NodeSpec

/-!
# Sequences of operations on one node

The calls that change a `RaftNode`, in any order and with any arguments.  The handlers
call `become_leader` and `become_follower` themselves; as public methods both may also be
called directly.  A vote response does not name its sender; the operation does, so that
one can say whose vote it carries.
-/

namespace Kaelix.Cluster.Raft

open Lib

/-- The calls of a node. -/
inductive NodeOp
  | startElection (now : Nat)
  | handleVoteRequest (request : RequestVoteRequest) (now : Nat)
  | handleVoteResponse (voter : NodeId) (response : RequestVoteResponse) (now : Nat)
  | becomeLeader (now : Nat)
  | becomeFollower (term : Nat)
  | handleAppendEntries (request : AppendEntriesRequest) (now : Nat)
  | handleAppendEntriesResponse (followerId : NodeId) (response : AppendEntriesResponse)
  | appendEntry (command : List UInt8) (timestamp : SerializableInstant)
  | applyCommittedEntries (applyFn : Nat → LogEntry → ConsensusResult Unit)

/-- The call neither starts an election nor adds to one or ends it. -/
def NodeOp.isOutsideElection : NodeOp → Bool
  | .startElection _ => false
  | .handleVoteResponse _ _ _ => false
  | .becomeLeader _ => false
  | _ => true

namespace RaftNode

/-- The node after a call. -/
def perform (self : RaftNode) : NodeOp → RaftNode
  | .startElection now => (self.startElection now).1
  | .handleVoteRequest request now => (self.handleVoteRequest request now).1
  | .handleVoteResponse _ response now => (self.handleVoteResponse response now).1
  | .becomeLeader now => (self.becomeLeader now).1
  | .becomeFollower term => (self.becomeFollower term).1
  | .handleAppendEntries request now => (self.handleAppendEntries request now).1
  | .handleAppendEntriesResponse followerId response =>
    (self.handleAppendEntriesResponse followerId response).1
  | .appendEntry command timestamp => (self.appendEntry command timestamp).1
  | .applyCommittedEntries applyFn => (self.applyCommittedEntries applyFn).1

/-- What the calls outside an election do to a node's standing: they leave it as it is, or
make the node a follower without votes. -/
structure KeepsStanding (a b : RaftNode) : Prop where
  nodeId : b.nodeId = a.nodeId
  clusterSize : b.clusterSize = a.clusterSize
  standing : (b.currentTerm = a.currentTerm ∧ b.state = a.state ∧ b.voteCount = a.voteCount) ∨
    (b.state = .follower ∧ b.voteCount = 0)

variable (a : RaftNode)

theorem KeepsStanding.refl : KeepsStanding a a := ⟨rfl, rfl, .inl ⟨rfl, rfl, rfl⟩⟩

theorem KeepsStanding.followed (term : Nat) : KeepsStanding a (a.followed term) :=
  ⟨rfl, rfl, .inr ⟨rfl, rfl⟩⟩

theorem keepsStanding_becomeFollower (term : Nat) : KeepsStanding a (a.becomeFollower term).1 := by
  unfold becomeFollower
  split
  · exact .refl a
  · exact .followed a term

private theorem keepsStanding_handleVoteRequest (request : RequestVoteRequest)
    (now : Nat) : KeepsStanding a (a.handleVoteRequest request now).1 := by
  rcases Nat.lt_or_ge request.term a.currentTerm with hlt | hle
  · rw [handleVoteRequest_stale now hlt]
    exact .refl a
  · rw [handleVoteRequest_of_le now hle]
    have hcau : KeepsStanding a (a.caughtUp request.term) := by
      rcases caughtUp_cases hle with ⟨-, hcu⟩ | ⟨-, hcu⟩
      · exact hcu.symm ▸ .refl a
      · exact hcu.symm ▸ .followed a request.term
    dsimp only
    split
    · exact ⟨hcau.nodeId, hcau.clusterSize, hcau.standing⟩
    · exact hcau

private theorem keepsStanding_handleAppendEntries (request : AppendEntriesRequest)
    (now : Nat) : KeepsStanding a (a.handleAppendEntries request now).1 := by
  obtain ⟨_, heq⟩ | ⟨_, _, heq⟩ | ⟨_, _, heq⟩ := handleAppendEntries_cases a request now
  · rw [heq]
    exact .refl a
  · rw [heq]
    exact ⟨rfl, rfl, .inr ⟨rfl, rfl⟩⟩
  · rw [heq, accepted, followCommit_eq, storeEntries_eq]
    exact ⟨rfl, rfl, .inr ⟨rfl, rfl⟩⟩

private theorem keepsStanding_handleAppendEntriesResponse (followerId : NodeId)
    (response : AppendEntriesResponse) :
    KeepsStanding a (a.handleAppendEntriesResponse followerId response).1 := by
  by_cases hstate : a.state = .leader
  · rcases Nat.lt_or_ge a.currentTerm response.term with hgt | hle
    · rw [handleAppendEntriesResponse_newer followerId hstate hgt]
      exact .followed a response.term
    · cases hsucc : response.success with
      | false =>
        rw [handleAppendEntriesResponse_failure followerId hstate hle hsucc,
          handleLogConflict_eq]
        exact ⟨rfl, rfl, .inl ⟨rfl, rfl, rfl⟩⟩
      | true =>
        rw [handleAppendEntriesResponse_success followerId hstate hle hsucc,
          tryAdvanceCommitIndex_eq, recordAck_eq]
        exact ⟨rfl, rfl, .inl ⟨rfl, rfl, rfl⟩⟩
  · rw [handleAppendEntriesResponse_ignored followerId response hstate]
    exact .refl a

private theorem keepsStanding_appendEntry (command : List UInt8) (timestamp : SerializableInstant) :
    KeepsStanding a (a.appendEntry command timestamp).1 := by
  by_cases hstate : a.state = .leader
  · rw [appendEntry_of_leader command timestamp hstate]
    exact ⟨rfl, rfl, .inl ⟨rfl, rfl, rfl⟩⟩
  · rw [appendEntry_of_not_leader command timestamp hstate]
    exact .refl a

private theorem keepsStanding_applyCommittedEntries
    (applyFn : Nat → LogEntry → ConsensusResult Unit) :
    KeepsStanding a (a.applyCommittedEntries applyFn).1 := by
  rw [applyCommittedEntries_eq]
  exact ⟨rfl, rfl, .inl ⟨rfl, rfl, rfl⟩⟩

theorem keepsStanding_perform {op : NodeOp}
    (h : op.isOutsideElection = true) : KeepsStanding a (a.perform op) := by
  cases op with
  | startElection | handleVoteResponse | becomeLeader => cases h
  | handleVoteRequest request now => exact keepsStanding_handleVoteRequest a request now
  | becomeFollower term => exact keepsStanding_becomeFollower a term
  | handleAppendEntries request now => exact keepsStanding_handleAppendEntries a request now
  | handleAppendEntriesResponse followerId response =>
    exact keepsStanding_handleAppendEntriesResponse a followerId response
  | appendEntry command timestamp => exact keepsStanding_appendEntry a command timestamp
  | applyCommittedEntries applyFn => exact keepsStanding_applyCommittedEntries a applyFn

end RaftNode

end Kaelix.Cluster.Raft
