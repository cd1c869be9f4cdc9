import Kaelix.Cluster.Consensus.LogReplication
import Kaelix.Cluster.Consensus.NodeSpec
import Kaelix.Lib.History

/-!
# The integrated coordinator

`IntegratedRaftCoordinator` keeps the log twice: in a `RaftNode`, and in a log-replication manager.
An entry of the leader goes to the manager only, a request without entries to the node only.
`logs_agree_iff` says for which calls the two logs and commit indexes stay the same.

Network messages are not sent.  The peers are those that were added before the first call.
-/

namespace Kaelix.Cluster.Raft

open Lib Std LogReplicationManager

variable {Data : Type}

private theorem getD_eq_getD_iff {commit : Nat} {target target' : Option Nat}
    (h : ∀ n ∈ target, commit < n) (h' : ∀ n ∈ target', commit < n) :
    target.getD commit = target'.getD commit ↔ target = target' := by
  cases target with
  | none =>
    cases target' with
    | none => simp
    | some n => simpa using (h' n rfl).ne
  | some n =>
    cases target' with
    | none => simpa using (h n rfl).ne'
    | some n' => simp

variable {n : Nat}

namespace RaftNode

/-- The log and the commit index stay. -/
structure KeepsLog (a b : RaftNode) : Prop where
  log : b.log = a.log
  commit : b.commitIndex = a.commitIndex

theorem keepsLog_handleVoteRequest (a : RaftNode) (request : RequestVoteRequest) (now : Nat) :
    KeepsLog a (a.handleVoteRequest request now).1 := by
  rcases Nat.lt_or_ge request.term a.currentTerm with hlt | hle
  · rw [handleVoteRequest_stale now hlt]
    exact ⟨rfl, rfl⟩
  · rw [handleVoteRequest_of_le now hle]
    have hcau : KeepsLog a (a.caughtUp request.term) := by
      unfold caughtUp
      split <;> exact ⟨rfl, rfl⟩
    dsimp only
    split <;> exact ⟨hcau.log, hcau.commit⟩

theorem keepsLog_handleVoteResponse (a : RaftNode) (response : RequestVoteResponse) (now : Nat) :
    KeepsLog a (a.handleVoteResponse response now).1 := by
  by_cases hnewer : a.state = .candidate ∧ response.term > a.currentTerm
  · rw [handleVoteResponse_newer now hnewer.1 hnewer.2]
    exact ⟨rfl, rfl⟩
  · by_cases hcnt : a.CountsVote response
    · rw [handleVoteResponse_counted now hcnt]
      split <;> exact ⟨rfl, rfl⟩
    · rw [handleVoteResponse_ignored now hcnt hnewer]
      exact ⟨rfl, rfl⟩

instance (a : RaftNode) : Decidable a.Advances :=
  decidable_of_iff (a.state = .leader ∧ a.commitIndex < a.medianIndex ∧
    (a.entryAt a.medianIndex).any fun entry => entry.term == a.currentTerm) (by
      simp [Advances, Option.any_eq_true])

/-- An answer moves the commit index to `n`: the node leads, the answer is a success of no later
term, half of the recorded indices reach `n`, and the entry there is of the own term. -/
def CommitsOn (a : RaftNode) (followerId : NodeId) (response : AppendEntriesResponse) (n : Nat) :
    Prop :=
  a.state = .leader ∧ response.term ≤ a.currentTerm ∧ response.success = true ∧
    HalfReach (a.recordAck followerId response.lastLogIndex).replicas n ∧ a.commitIndex < n ∧
    ∃ entry, a.entryAt n = some entry ∧ entry.term = a.currentTerm

/-- The index that an answer commits at the node. -/
def answerTarget (self : RaftNode) (followerId : NodeId) (response : AppendEntriesResponse) :
    Option Nat :=
  let acked := self.recordAck followerId response.lastLogIndex
  if self.state = .leader ∧ response.term ≤ self.currentTerm ∧ response.success = true ∧
    acked.Advances then some acked.medianIndex else none

theorem mem_answerTarget_iff {a : RaftNode} {followerId : NodeId}
    {response : AppendEntriesResponse} :
    n ∈ a.answerTarget followerId response ↔ a.CommitsOn followerId response n := by
  have hrec : (a.recordAck followerId response.lastLogIndex).replicas ≠ [] := by simp [replicas]
  have hadv : (a.recordAck followerId response.lastLogIndex).Advances ↔ a.state = .leader ∧
      a.commitIndex < (a.recordAck followerId response.lastLogIndex).medianIndex ∧
      ∃ entry, a.entryAt (a.recordAck followerId response.lastLogIndex).medianIndex = some entry ∧
        entry.term = a.currentTerm := by
    cases response.lastLogIndex <;> exact Iff.rfl
  rw [CommitsOn, halfReach_iff hrec, ← medianIndex_eq]
  simp only [answerTarget, hadv, Option.mem_def, Option.ite_none_right_eq_some,
    Option.some.injEq]
  constructor
  · rintro ⟨⟨hlead, hterm, hsucc, -, hlt, hent⟩, rfl⟩
    exact ⟨hlead, hterm, hsucc, rfl, hlt, hent⟩
  · rintro ⟨hlead, hterm, hsucc, rfl, hlt, hent⟩
    exact ⟨⟨hlead, hterm, hsucc, hlead, hlt, hent⟩, rfl⟩

theorem handleAppendEntriesResponse_ok (a : RaftNode) (followerId : NodeId)
    (response : AppendEntriesResponse) :
    (a.handleAppendEntriesResponse followerId response).2 = .ok () := by
  unfold handleAppendEntriesResponse
  split
  · rfl
  · split
    · rename_i hterm
      rw [becomeFollower_of_le (Nat.le_of_lt hterm)]
    · split <;> rfl

theorem handleAppendEntriesResponse_logs (a : RaftNode) (followerId : NodeId)
    (response : AppendEntriesResponse) :
    (a.handleAppendEntriesResponse followerId response).1.log = a.log ∧
      (a.handleAppendEntriesResponse followerId response).1.commitIndex =
        (a.answerTarget followerId response).getD a.commitIndex := by
  unfold answerTarget
  by_cases hlead : a.state = .leader
  · by_cases hterm : response.term ≤ a.currentTerm
    · cases hsucc : response.success with
      | false =>
        rw [handleAppendEntriesResponse_failure followerId hlead hterm hsucc,
          handleLogConflict_eq]
        simp
      | true =>
        rw [handleAppendEntriesResponse_success followerId hlead hterm hsucc]
        by_cases hadv : (a.recordAck followerId response.lastLogIndex).Advances
        · rw [tryAdvanceCommitIndex_of_advances hadv]
          simp only [hlead, hterm, hadv, and_self, if_true]
          rw [recordAck_eq]
          exact ⟨rfl, rfl⟩
        · rw [tryAdvanceCommitIndex_of_not_advances hadv]
          simp only [hadv, and_false, if_false]
          rw [recordAck_eq]
          exact ⟨rfl, rfl⟩
    · rw [handleAppendEntriesResponse_newer followerId hlead (by omega)]
      simp [hterm, followed]
  · rw [handleAppendEntriesResponse_ignored followerId response hlead]
    simp [hlead]

end RaftNode

namespace LogReplicationManager

variable (self : LogReplicationManager Data) (followerId : NodeId)
  (response : AppendEntriesResponse)

/-- The match indices on record after the answer, and the last index of the own log. -/
def recorded (lastLogIndex : Nat) : List Nat :=
  HashMap.values (self.matchIndex.insert followerId lastLogIndex) ++
    self.logEntries.keys.getLast?.toList

/-- An answer moves the commit index to `n`: its request is pending, it is a success with the
follower's last index, half of the recorded indices reach `n`, and there is an entry. -/
def CommitsOn (n : Nat) : Prop :=
  response.requestId ∈ self.pendingRequests ∧ response.success = true ∧
    ∃ lastLogIndex ∈ response.lastLogIndex, HalfReach (self.recorded followerId lastLogIndex) n ∧
      self.commitIndex < n ∧ n ∈ self.logEntries

/-- The index that an answer commits at the manager. -/
def answerTarget : Option Nat :=
  if response.requestId ∈ self.pendingRequests ∧ response.success = true then
    response.lastLogIndex.bind fun lastLogIndex =>
      (self.recordMatch followerId lastLogIndex).commitTarget
  else none

theorem mem_answerTarget_iff :
    n ∈ self.answerTarget followerId response ↔ self.CommitsOn followerId response n := by
  have htgt : ∀ lastLogIndex, (self.recordMatch followerId lastLogIndex).commitTarget =
      (((self.recorded followerId lastLogIndex).insertionSort (· ≤ ·))[
        ((self.recorded followerId lastLogIndex).insertionSort (· ≤ ·)).length / 2]?).filter
        fun n => decide (n > self.commitIndex) && self.logEntries.contains n :=
    fun _ => (recordMatch_logs _ _).2.2
  have hrec : ∀ lastLogIndex, self.recorded followerId lastLogIndex ≠ [] := fun _ =>
    List.ne_nil_of_mem (List.mem_append_left _
      (HashMap.mem_values_of_lookup (AList.lookup_insert _)))
  simp only [answerTarget, CommitsOn, Option.mem_def, Option.ite_none_right_eq_some, and_assoc,
    Option.bind_eq_some_iff, htgt,
    List.length_insertionSort, getElem?_upperMedian (hrec _), Option.filter_eq_some_iff,
    Option.some.injEq, halfReach_iff (hrec _), Bool.and_eq_true, decide_eq_true_eq,
    TreeMap.contains_iff_mem, gt_iff_lt]

variable {self followerId response} in
theorem lt_of_commitsOn (h : self.CommitsOn followerId response n) : self.commitIndex < n := by
  obtain ⟨-, -, _, -, -, hlt, -⟩ := h
  exact hlt

theorem handleAppendEntriesResponse_logs (overflowChecks : Bool) :
    entriesOf (self.handleAppendEntriesResponse overflowChecks followerId response).1.logEntries =
        entriesOf self.logEntries ∧
      (self.handleAppendEntriesResponse overflowChecks followerId response).1.commitIndex =
        (self.answerTarget followerId response).getD self.commitIndex := by
  unfold handleAppendEntriesResponse answerTarget
  by_cases hpend : response.requestId ∈ self.pendingRequests
  · cases hsucc : response.success with
    | true =>
      cases hlast : response.lastLogIndex with
      | none => simp [hpend]
      | some lastLogIndex =>
        simp only [hpend, if_true, and_self, Option.bind_some]
        rw [entriesOf_tryAdvanceCommitIndex, commitIndex_tryAdvanceCommitIndex]
        simp only [recordMatch_logs]
        exact ⟨trivial, rfl⟩
    | false =>
      simp only [hpend, if_true, Bool.false_eq_true, and_false, if_false, replicationFailed,
        handleLogConflict]
      split
      · rw [updateFollower_eq, updateFollower_eq]
        exact ⟨rfl, rfl⟩
      · rw [updateFollower_eq]
        exact ⟨rfl, rfl⟩
  · simp [hpend]

end LogReplicationManager

/-- The two logs of one member. -/
structure IntegratedRaftCoordinator (Data : Type) where
  nodeId : NodeId
  raftNode : RaftNode
  logManager : LogReplicationManager Data
  clusterMembers : List NodeId

namespace IntegratedRaftCoordinator

def new (codec : Bincode Data) (nodeId : NodeId) (clusterSize : Nat) (config : RaftConfig)
    (wal : WalStorage Data) (peers : List NodeId) : IntegratedRaftCoordinator Data :=
  { nodeId
    raftNode := .new nodeId clusterSize config
    logManager := (LogReplicationManager.new codec nodeId wal config).initializeFollowers peers
    clusterMembers := peers }

variable (self : IntegratedRaftCoordinator Data)

/-- One round of the heartbeat loop.  Whether the lease of a leader is valid and whether the
election timeout has passed is given. -/
def consensusTick (leaseValid electionTimeout : Bool) (now : Nat) :
    IntegratedRaftCoordinator Data :=
  if self.raftNode.isLeader then
    if leaseValid then self
    else { self with raftNode := (self.raftNode.becomeFollower self.raftNode.currentTerm).1 }
  else if electionTimeout then { self with raftNode := (self.raftNode.startElection now).1 }
  else self

/-- The loop of `replicate_to_followers`: requests that cannot be created are left out. -/
def replicateTo (overflowChecks : Bool) (term commitIndex : Nat)
    (manager : LogReplicationManager Data) :
    List NodeId → LogReplicationManager Data × Except Panic Unit
  | [] => (manager, .ok ())
  | followerId :: followers =>
    match manager.createAppendEntriesRequest overflowChecks followerId term commitIndex with
    | (manager, .error p) => (manager, .error p)
    | (manager, .ok _) => replicateTo overflowChecks term commitIndex manager followers

/-- A request for every other member. -/
def replicateToFollowers (overflowChecks : Bool) :
    IntegratedRaftCoordinator Data × Except Panic Unit :=
  let (manager, result) := replicateTo overflowChecks self.raftNode.currentTerm
    self.logManager.commitIndex self.logManager (self.clusterMembers.filter (· != self.nodeId))
  ({ self with logManager := manager }, result)

/-- The followers are set up anew. -/
def onBecameLeader (overflowChecks : Bool) : IntegratedRaftCoordinator Data × Except Panic Unit :=
  replicateToFollowers { self with
    logManager :=
      self.logManager.initializeFollowers (self.clusterMembers.filter (· != self.nodeId)) }
    overflowChecks

def handleVoteRequest (request : RequestVoteRequest) (now : Nat) :
    IntegratedRaftCoordinator Data × ConsensusResult RequestVoteResponse :=
  let (node, response) := self.raftNode.handleVoteRequest request now
  ({ self with raftNode := node }, response)

/-- A win sets up the followers. -/
def handleVoteResponse (overflowChecks : Bool) (response : RequestVoteResponse) (now : Nat) :
    IntegratedRaftCoordinator Data × Except Panic (ConsensusResult Bool) :=
  let (node, becameLeader) := self.raftNode.handleVoteResponse response now
  let self := { self with raftNode := node }
  match becameLeader with
  | .ok true =>
    let (self, sent) := self.onBecameLeader overflowChecks
    (self, sent.map fun _ => .ok true)
  | result => (self, .ok result)

section

variable (codec : Bincode Data) (failures : WriteFailures)

/-- The manager gets what the node has taken, if there are entries. -/
def handleAppendEntries (request : AppendEntriesRequest) (now : Nat) :
    IntegratedRaftCoordinator Data × ConsensusResult AppendEntriesResponse :=
  let (node, result) := self.raftNode.handleAppendEntries request now
  let self := { self with raftNode := node }
  match result with
  | .error e => (self, .error e)
  | .ok response =>
    if response.success && !request.entries.isEmpty then
      ({ self with
          logManager := (self.logManager.handleAppendEntriesRequest codec failures request).1 },
        .ok response)
    else (self, .ok response)

/-- The entry goes to the manager only. -/
def appendEntry (overflowChecks : Bool) (command : List UInt8) (timestamp : SerializableInstant) :
    IntegratedRaftCoordinator Data × Except Panic (ConsensusResult Nat) :=
  if !self.raftNode.isLeader then (self, .ok (.error (.notLeader self.raftNode.currentLeader)))
  else
    let (manager, result) :=
      self.logManager.appendEntry codec failures self.raftNode.currentTerm command timestamp
    let self := { self with logManager := manager }
    match result with
    | .error e => (self, .ok (.error e))
    | .ok index =>
      let (self, sent) := self.replicateToFollowers overflowChecks
      (self, sent.map fun _ => .ok index)

end

/-- Both get the answer. -/
def handleAppendEntriesResponse (overflowChecks : Bool) (followerId : NodeId)
    (response : AppendEntriesResponse) :
    IntegratedRaftCoordinator Data × Except Panic (ConsensusResult Unit) :=
  let (node, result) := self.raftNode.handleAppendEntriesResponse followerId response
  let self := { self with raftNode := node }
  match result with
  | .error e => (self, .ok (.error e))
  | .ok () =>
    let (manager, result) :=
      self.logManager.handleAppendEntriesResponse overflowChecks followerId response
    ({ self with logManager := manager }, result.map .ok)

/-- The calls of a coordinator. -/
inductive CoordinatorCall
  | appendEntry (command : List UInt8) (timestamp : SerializableInstant)
  | appendEntries (request : AppendEntriesRequest) (now : Nat)
  | appendEntriesResponse (followerId : NodeId) (response : AppendEntriesResponse)
  | voteRequest (request : RequestVoteRequest) (now : Nat)
  | voteResponse (response : RequestVoteResponse) (now : Nat)
  | consensusTick (leaseValid electionTimeout : Bool) (now : Nat)

/-- What a call does when no write fails. -/
def call (codec : Bincode Data) (overflowChecks : Bool) (self : IntegratedRaftCoordinator Data) :
    CoordinatorCall → IntegratedRaftCoordinator Data
  | .appendEntry command timestamp =>
    (self.appendEntry codec noFailures overflowChecks command timestamp).1
  | .appendEntries request now => (self.handleAppendEntries codec noFailures request now).1
  | .appendEntriesResponse followerId response =>
    (self.handleAppendEntriesResponse overflowChecks followerId response).1
  | .voteRequest request now => (self.handleVoteRequest request now).1
  | .voteResponse response now => (self.handleVoteResponse overflowChecks response now).1
  | .consensusTick leaseValid electionTimeout now =>
    self.consensusTick leaseValid electionTimeout now

/-! ## Agreement -/

/-- The entries of a list by their index, which starts with 1. -/
def indexed (log : List LogEntry) (index : Nat) : Option LogEntry :=
  if index = 0 then none else log[index - 1]?

/-- Both logs and both commit indexes are the same. -/
structure Agree (s : IntegratedRaftCoordinator Data) : Prop where
  log : entriesOf s.logManager.logEntries = indexed s.raftNode.log
  commit : s.raftNode.commitIndex = s.logManager.commitIndex

/-- The entries are numbered from behind `prev` on. -/
def Numbered (prev : Nat) (entries : List LogEntry) : Prop :=
  ∀ j entry, entries[j]? = some entry → entry.index = prev + 1 + j

/-- The node takes the request: it is not from an earlier term, and follows on an entry that the
node has. -/
def Accepts (node : RaftNode) (request : AppendEntriesRequest) : Prop :=
  node.currentTerm ≤ request.term ∧
    node.checkLogConsistency request.prevLogIndex request.prevLogTerm = true

instance (node : RaftNode) (request : AppendEntriesRequest) : Decidable (Accepts node request) :=
  inferInstanceAs (Decidable (_ ∧ _))

/-- What keeps two logs that agree in agreement.  A leader is not called to append.  The entries of
a request that is taken are numbered from where they go, and do not end before the commit index
if it moves; where there are none, it does not move.  And an answer that moves one of the commit
indexes moves the other to the same index. -/
def KeepsAgreement (s : IntegratedRaftCoordinator Data) : CoordinatorCall → Prop
  | .appendEntry _ _ => s.raftNode.isLeader = false
  | .appendEntries request _ =>
    Accepts s.raftNode request →
      if request.entries = [] then
        request.leaderCommit ≤ s.raftNode.commitIndex ∨
          s.raftNode.log.length = s.raftNode.commitIndex
      else
        Numbered request.prevLogIndex request.entries ∧
          (request.leaderCommit ≤ s.raftNode.commitIndex ∨
            s.raftNode.commitIndex ≤ request.prevLogIndex + request.entries.length)
  | .appendEntriesResponse followerId response =>
    ∀ n, s.raftNode.CommitsOn followerId response n ↔
      s.logManager.CommitsOn followerId response n
  | .voteRequest _ _ | .voteResponse _ _ | .consensusTick _ _ _ => True

/-- The call is a request whose entries replace all that the manager has, as nothing stands
before them. -/
def Overwrites (s : IntegratedRaftCoordinator Data) : CoordinatorCall → Prop
  | .appendEntries request _ =>
    Accepts s.raftNode request ∧ request.entries ≠ [] ∧
      ∀ i ≤ request.prevLogIndex, entriesOf s.logManager.logEntries i = none
  | _ => False

/-! ## What the calls change -/

/-- Both logs and both commit indexes stay. -/
structure SameLogs (s t : IntegratedRaftCoordinator Data) : Prop where
  log : t.raftNode.log = s.raftNode.log
  commit : t.raftNode.commitIndex = s.raftNode.commitIndex
  entries : entriesOf t.logManager.logEntries = entriesOf s.logManager.logEntries
  managerCommit : t.logManager.commitIndex = s.logManager.commitIndex

variable {codec : Bincode Data} {overflowChecks : Bool} {s t : IntegratedRaftCoordinator Data}

theorem SameLogs.agree_iff (h : SameLogs s t) : t.Agree ↔ s.Agree := by
  constructor
  · intro ha
    exact ⟨by rw [← h.entries, ← h.log, ha.log], by rw [← h.commit, ← h.managerCommit, ha.commit]⟩
  · intro ha
    exact ⟨by rw [h.entries, h.log, ha.log], by rw [h.commit, h.managerCommit, ha.commit]⟩

theorem sameLogs_consensusTick (leaseValid electionTimeout : Bool) (now : Nat) :
    SameLogs s (s.consensusTick leaseValid electionTimeout now) := by
  unfold consensusTick RaftNode.becomeFollower
  repeat' split
  all_goals exact ⟨rfl, rfl, rfl, rfl⟩

private theorem keepsLog_replicateTo (overflowChecks : Bool) (term commitIndex : Nat)
    (manager : LogReplicationManager Data) (followers : List NodeId) :
    manager.KeepsLog (replicateTo overflowChecks term commitIndex manager followers).1 := by
  induction followers generalizing manager with
  | nil => exact ⟨rfl, rfl⟩
  | cons followerId followers ih =>
    have hfirst : manager.KeepsLog (manager.createAppendEntriesRequest overflowChecks followerId
      term commitIndex).1 := keepsLog_createAppendEntriesRequest _ _ _ _
    rw [replicateTo]
    split
    · next hcr => rwa [hcr] at hfirst
    · next next _ hcr =>
      rw [hcr] at hfirst
      have hrest := ih next
      exact ⟨hrest.entries.trans hfirst.entries, hrest.commit.trans hfirst.commit⟩

theorem sameLogs_replicateToFollowers : SameLogs s (s.replicateToFollowers overflowChecks).1 := by
  have hkeeps := keepsLog_replicateTo overflowChecks s.raftNode.currentTerm
    s.logManager.commitIndex s.logManager (s.clusterMembers.filter (· != s.nodeId))
  exact ⟨rfl, rfl, hkeeps.entries, hkeeps.commit⟩

theorem sameLogs_handleVoteRequest (request : RequestVoteRequest) (now : Nat) :
    SameLogs s (s.handleVoteRequest request now).1 := by
  have hnode := s.raftNode.keepsLog_handleVoteRequest request now
  exact ⟨hnode.log, hnode.commit, rfl, rfl⟩

theorem sameLogs_handleVoteResponse (response : RequestVoteResponse) (now : Nat) :
    SameLogs s (s.handleVoteResponse overflowChecks response now).1 := by
  have hnode := s.raftNode.keepsLog_handleVoteResponse response now
  unfold handleVoteResponse
  dsimp only
  split
  · have hsent : SameLogs { s with
        raftNode := (s.raftNode.handleVoteResponse response now).1
        logManager := s.logManager.initializeFollowers (s.clusterMembers.filter (· != s.nodeId)) }
        (replicateToFollowers _ overflowChecks).1 := sameLogs_replicateToFollowers
    exact ⟨hsent.log.trans hnode.log, hsent.commit.trans hnode.commit, hsent.entries,
      hsent.managerCommit⟩
  · exact ⟨hnode.log, hnode.commit, rfl, rfl⟩

/-! ## Entries of a request -/

/-- Every entry is under its own index. -/
def Keyed (f : Nat → Option LogEntry) : Prop := ∀ i entry, f i = some entry → entry.index = i

variable {f : Nat → Option LogEntry}

theorem Keyed.inserted (h : Keyed f) (entries : List LogEntry) : Keyed (inserted f entries) := by
  induction entries generalizing f with
  | nil => exact h
  | cons entry entries ih =>
    refine ih fun i e hi => ?_
    dsimp only at hi
    rw [Function.update_apply] at hi
    split at hi
    · cases hi
      symm
      assumption
    · exact h i e hi

theorem Keyed.restrict (h : Keyed f) (n : Nat) :
    Keyed (fun i => if i < n then f i else none) := by
  intro i entry hi
  dsimp only at hi
  split at hi
  · exact h i entry hi
  · cases hi

variable {prev : Nat} {entries : List LogEntry}

private theorem inserted_of_numbered (h : Numbered prev entries) (i : Nat) :
    inserted f entries i =
      if prev < i ∧ i ≤ prev + entries.length then entries[i - (prev + 1)]? else f i := by
  induction entries generalizing f prev with
  | nil =>
    rw [if_neg (by simp)]
    rfl
  | cons entry entries ih =>
    have hindex : entry.index = prev + 1 := h 0 entry rfl
    have hrest : Numbered (prev + 1) entries := by
      intro j e he
      rw [h (j + 1) e he]
      omega
    rw [inserted, List.foldl_cons, ← inserted, ih hrest, Function.update_apply, hindex]
    by_cases hfirst : i = prev + 1
    · subst hfirst
      simp
    · rw [if_neg hfirst, List.length_cons]
      by_cases hlow : prev + 1 < i
      · obtain ⟨j, rfl⟩ : ∃ j, i = j + (prev + 2) := ⟨i - (prev + 2), by omega⟩
        rw [show j + (prev + 2) - (prev + 1 + 1) = j by omega,
          show j + (prev + 2) - (prev + 1) = j + 1 by omega, List.getElem?_cons_succ]
        split <;> split <;> first | rfl | omega
      · rw [if_neg (by omega), if_neg (by omega)]

variable {log : List LogEntry} {i : Nat}

theorem indexed_append_of_le (hprev : prev ≤ log.length) (hi : i ≤ prev) :
    indexed (log.take prev ++ entries) i = indexed log i := by
  unfold indexed
  split
  · rfl
  · rw [List.getElem?_append_left (by simp; omega), List.getElem?_take_of_lt (by omega)]

private theorem indexed_append_of_lt (hprev : prev ≤ log.length) (hi : prev < i) :
    indexed (log.take prev ++ entries) i = entries[i - (prev + 1)]? := by
  rw [indexed, if_neg (by omega), List.getElem?_append_right (by simp; omega)]
  congr 1
  simp
  omega

theorem inserted_eq_indexed_iff (hkeyed : Keyed f) (hprev : prev ≤ log.length) (first : LogEntry)
    (rest : List LogEntry) :
    inserted (fun i => if i < first.index then f i else none) (first :: rest) =
        indexed (log.take prev ++ first :: rest) ↔
      Numbered prev (first :: rest) ∧ ∀ i ≤ prev, f i = indexed log i := by
  constructor
  · intro heq
    have hnum : Numbered prev (first :: rest) := by
      intro j entry hent
      refine (hkeyed.restrict first.index).inserted (first :: rest) (prev + 1 + j) entry ?_
      rw [heq, indexed_append_of_lt hprev (by omega), ← hent]
      congr 1
      omega
    refine ⟨hnum, fun i hi => ?_⟩
    have hfirst : first.index = prev + 1 := hnum 0 first rfl
    have hi' := congrFun heq i
    rw [inserted_of_numbered hnum, if_neg (by omega), if_pos (by omega),
      indexed_append_of_le hprev hi] at hi'
    exact hi'
  · intro h
    obtain ⟨hnum, hbef⟩ := h
    have hfirst : first.index = prev + 1 := hnum 0 first rfl
    funext i
    rw [inserted_of_numbered hnum]
    by_cases hi : prev < i
    · rw [indexed_append_of_lt hprev hi]
      split
      · rfl
      · rw [if_neg (by omega), List.getElem?_eq_none (by omega)]
    · rw [if_neg (by omega), if_pos (by omega), indexed_append_of_le hprev (by omega),
        hbef i (by omega)]

variable {m : LogReplicationManager Data}

private theorem lastIndex_of_indexed (h : entriesOf m.logEntries = indexed log) :
    m.lastIndex = log.length := by
  have hsome : ∀ i, (indexed log i).isSome ↔ 0 < i ∧ i ≤ log.length := by
    intro i
    unfold indexed
    split
    · simp; omega
    · simp; omega
  have hspec := m.lastIndex_spec
  simp only [h, hsome] at hspec
  by_cases hemp : log.length = 0
  · have := hspec.2
    omega
  · have := hspec.1 log.length (by omega)
    have := hspec.2
    omega

/-! ## The calls and agreement -/

/-- What holds before each call, as long as the logs were the same after those before. -/
structure Inv (s : IntegratedRaftCoordinator Data) : Prop where
  keyed : Keyed (entriesOf s.logManager.logEntries)
  commit : s.raftNode.commitIndex = s.logManager.commitIndex
  log : entriesOf s.logManager.logEntries = indexed s.raftNode.log ∨ s.raftNode.log = []

/-- A manager whose entry before those of a request is the one of a node accepts what the node
accepts. -/
theorem checkLogConsistency_of_node {prevTerm : Nat}
    (hnode : s.raftNode.checkLogConsistency prev prevTerm = true)
    (hprev : entriesOf s.logManager.logEntries prev = indexed s.raftNode.log prev) :
    s.logManager.checkLogConsistency prev prevTerm = true := by
  cases RaftNode.checkLogConsistency_iff.mp hnode with
  | inl hzero => simp [LogReplicationManager.checkLogConsistency, hzero]
  | inr hent =>
    by_cases hzero : prev = 0
    · simp [LogReplicationManager.checkLogConsistency, hzero]
    · obtain ⟨entry, hent, hterm⟩ := hent
      rw [indexed, if_neg hzero, ← RaftNode.entryAt, hent] at hprev
      obtain ⟨walEntry, hwal, rfl⟩ := Option.map_eq_some_iff.mp hprev
      simp [LogReplicationManager.checkLogConsistency, hwal, hterm]

variable {node : RaftNode}

private theorem prev_le_of_node {prevTerm : Nat}
    (hnode : node.checkLogConsistency prev prevTerm = true) : prev ≤ node.log.length := by
  cases RaftNode.checkLogConsistency_iff.mp hnode with
  | inl hzero => omega
  | inr hent =>
    obtain ⟨entry, hent, -⟩ := hent
    obtain ⟨hlt, -⟩ := List.getElem?_eq_some_iff.mp hent
    omega

variable {request : AppendEntriesRequest}

theorem handleAppendEntriesRequest_spec {first : LogEntry} {rest : List LogEntry}
    (hcheck : m.checkLogConsistency request.prevLogIndex request.prevLogTerm = true)
    (hes : request.entries = first :: rest) :
    entriesOf (m.handleAppendEntriesRequest codec noFailures request).1.logEntries =
        inserted (fun i => if i < first.index then entriesOf m.logEntries i else none)
          (first :: rest) ∧
      ∀ log, entriesOf (m.handleAppendEntriesRequest codec noFailures request).1.logEntries =
          indexed log →
        (m.handleAppendEntriesRequest codec noFailures request).1.commitIndex =
          if request.leaderCommit > m.commitIndex then
            max m.commitIndex (min request.leaderCommit log.length)
          else m.commitIndex := by
  obtain ⟨hok, hcom, hst⟩ := (m.truncate first.index).storeAll_spec codec (first :: rest)
  have heq : (m.handleAppendEntriesRequest codec noFailures request).1 =
      ((m.truncate first.index).storeAll codec noFailures (first :: rest)).1.followCommit
        request.leaderCommit := by
    unfold handleAppendEntriesRequest
    simp [hcheck, hes, hok]
  rw [heq, entriesOf_followCommit, hst, entriesOf_truncate]
  refine ⟨rfl, fun log hlog => ?_⟩
  have hlast := lastIndex_of_indexed (hst.trans ((congrArg (inserted · _)
    (entriesOf_truncate _)).trans hlog))
  rw [commitIndex_followCommit, hlast, hcom]
  rfl

private theorem agree_accepted_iff (h : s.Inv) (now : Nat) (hacc : Accepts s.raftNode request)
    (hes : request.entries ≠ []) :
    Agree { s with
      raftNode := s.raftNode.accepted request now
      logManager := (s.logManager.handleAppendEntriesRequest codec noFailures request).1 } ↔
    Numbered request.prevLogIndex request.entries ∧
      (∀ i ≤ request.prevLogIndex,
        entriesOf s.logManager.logEntries i = indexed s.raftNode.log i) ∧
      (request.leaderCommit ≤ s.raftNode.commitIndex ∨
        s.raftNode.commitIndex ≤ request.prevLogIndex + request.entries.length) := by
  obtain ⟨first, rest, hcons⟩ := List.exists_cons_of_ne_nil hes
  have hprev := prev_le_of_node hacc.2
  have hlog : (s.raftNode.accepted request now).log =
      s.raftNode.log.take request.prevLogIndex ++ request.entries := by
    rw [RaftNode.accepted_log, if_neg hes]
  by_cases hcheck : s.logManager.checkLogConsistency request.prevLogIndex request.prevLogTerm = true
  · obtain ⟨hmap, hcom⟩ : _ ∧ ∀ log,
        entriesOf (handleAppendEntriesRequest _ codec _ _).1.logEntries = _ → _ :=
      handleAppendEntriesRequest_spec hcheck hcons
    have hsplice := inserted_eq_indexed_iff h.keyed hprev first rest
    rw [← hcons, ← hlog] at hsplice
    rw [hmap, ← hcons] at hcom
    have hcoms := hcom (s.raftNode.accepted request now).log
    have hlen : (s.raftNode.accepted request now).log.length =
        request.prevLogIndex + request.entries.length := by
      rw [hlog, List.length_append, List.length_take, Nat.min_eq_left hprev]
    have hnode := s.raftNode.accepted_commitIndex request now
    rw [hlen] at hnode hcoms
    have hbef := h.commit
    constructor
    · intro hagree
      have hlogs := (hmap.symm.trans hagree.log)
      rw [← hcons] at hlogs
      have hafter := hagree.commit
      dsimp only at hafter
      rw [hnode, hcoms hlogs] at hafter
      refine ⟨(hsplice.mp hlogs).1, (hsplice.mp hlogs).2, ?_⟩
      by_contra hdown
      rw [if_pos (by omega), if_pos (by omega)] at hafter
      omega
    · intro hspl
      have hlogs := hsplice.mpr ⟨hspl.1, hspl.2.1⟩
      refine ⟨?_, ?_⟩
      · show entriesOf (handleAppendEntriesRequest _ _ _ _).1.logEntries = _
        rw [hmap, ← hcons, hlogs]
      · show (s.raftNode.accepted request now).commitIndex =
          (handleAppendEntriesRequest _ _ _ _).1.commitIndex
        rw [hnode, hcoms hlogs]
        have hup := hspl.2.2
        split <;> split <;> omega
  · have hno : entriesOf s.logManager.logEntries request.prevLogIndex ≠
        indexed s.raftNode.log request.prevLogIndex := fun hprev =>
      hcheck (checkLogConsistency_of_node hacc.2 hprev)
    have hsame : (s.logManager.handleAppendEntriesRequest codec noFailures request).1 =
        s.logManager := by
      unfold handleAppendEntriesRequest
      simp [hcheck]
    refine iff_of_false (fun hagree => hno ?_) fun hspl =>
      hno (hspl.2.1 _ (Nat.le_refl _))
    have hat := congrFun hagree.log request.prevLogIndex
    dsimp only at hat
    rw [hsame, hlog, indexed_append_of_le hprev (Nat.le_refl _)] at hat
    exact hat

theorem handleAppendEntries_eq (request : AppendEntriesRequest) (now : Nat) :
    (s.handleAppendEntries codec noFailures request now).1 =
      if Accepts s.raftNode request then
        if request.entries = [] then { s with raftNode := s.raftNode.accepted request now }
        else { s with
          raftNode := s.raftNode.accepted request now
          logManager := (s.logManager.handleAppendEntriesRequest codec noFailures request).1 }
      else { s with raftNode := (s.raftNode.handleAppendEntries request now).1 } := by
  unfold handleAppendEntries
  by_cases hacc : Accepts s.raftNode request
  · rw [if_pos hacc, RaftNode.handleAppendEntries_accepted now hacc.1 hacc.2]
    by_cases hes : request.entries = []
    · simp [hes]
    · simp [hes, RaftNode.appendResponse]
  · rw [if_neg hacc]
    obtain ⟨-, heq⟩ | ⟨-, -, heq⟩ | ⟨hterm, hcheck, -⟩ :=
      RaftNode.handleAppendEntries_cases s.raftNode request now
    · rw [heq]
      simp [RaftNode.appendResponse]
    · rw [heq]
      simp [RaftNode.appendResponse]
    · exact absurd ⟨hterm, hcheck⟩ hacc

private theorem keepsLog_of_not_accepts (now : Nat) (h : ¬ Accepts node request) :
    node.KeepsLog (node.handleAppendEntries request now).1 := by
  obtain ⟨-, heq⟩ | ⟨-, -, heq⟩ | ⟨hterm, hcheck, -⟩ :=
    RaftNode.handleAppendEntries_cases node request now
  · rw [heq]
    exact ⟨rfl, rfl⟩
  · rw [heq]
    exact ⟨rfl, rfl⟩
  · exact absurd ⟨hterm, hcheck⟩ h

/-- Where the logs differ, as they may at the start, the node's is empty, and only entries that
overwrite the manager's go on from the same state. -/
theorem agree_or_overwrites_iff (h : s.Inv) (now : Nat) (hacc : Accepts s.raftNode request)
    (hes : request.entries ≠ []) :
    s.Agree ∨ s.Overwrites (.appendEntries request now) ↔
      ∀ i ≤ request.prevLogIndex,
        entriesOf s.logManager.logEntries i = indexed s.raftNode.log i := by
  have hnone : ∀ i, s.raftNode.log = [] → indexed s.raftNode.log i = none := by
    intro i hnil
    simp [hnil, indexed]
  cases h.log with
  | inl hlog => exact iff_of_true (.inl ⟨hlog, h.commit⟩) fun i _ => congrFun hlog i
  | inr hnil =>
    constructor
    · rintro (hagree | ⟨-, -, hover⟩) i hi
      · exact congrFun hagree.log i
      · rw [hover i hi, hnone i hnil]
    · intro hsame
      exact .inr ⟨hacc, hes, fun i hi => (hsame i hi).trans (hnone i hnil)⟩

private theorem agree_handleAppendEntries_iff (h : s.Inv) (request : AppendEntriesRequest)
    (now : Nat) :
    (s.call codec overflowChecks (.appendEntries request now)).Agree ↔
      (s.Agree ∨ s.Overwrites (.appendEntries request now)) ∧
        s.KeepsAgreement (.appendEntries request now) := by
  rw [call, handleAppendEntries_eq, KeepsAgreement]
  by_cases hacc : Accepts s.raftNode request
  · rw [if_pos hacc, forall_prop_of_true hacc]
    by_cases hes : request.entries = []
    · have hover : ¬ s.Overwrites (.appendEntries request now) := fun hover => hover.2.1 hes
      have hlog := s.raftNode.accepted_log request now
      have hcom := s.raftNode.accepted_commitIndex request now
      have hbef := h.commit
      rw [if_pos hes] at hlog
      rw [hlog] at hcom
      rw [if_pos hes, if_pos hes, or_iff_left hover]
      constructor
      · intro hagree
        have hafter := hagree.commit
        refine ⟨⟨hagree.log.trans (congrArg indexed hlog), hbef⟩, ?_⟩
        dsimp only at hafter
        rw [hcom] at hafter
        split at hafter <;> omega
      · intro hkeeps
        refine ⟨hkeeps.1.log.trans (congrArg indexed hlog.symm), ?_⟩
        show (s.raftNode.accepted request now).commitIndex = s.logManager.commitIndex
        rw [hcom]
        have hkept := hkeeps.2
        split <;> omega
    · rw [if_neg hes, if_neg hes, agree_accepted_iff h now hacc hes,
        agree_or_overwrites_iff h now hacc hes]
      exact and_left_comm
  · have hover : ¬ s.Overwrites (.appendEntries request now) := fun hover => hacc hover.1
    have hnode := keepsLog_of_not_accepts now hacc
    rw [if_neg hacc, or_iff_left hover]
    simp only [hacc, false_imp_iff, and_true]
    exact SameLogs.agree_iff ⟨hnode.log, hnode.commit, rfl, rfl⟩

theorem entriesOf_appendEntry (hlead : s.raftNode.isLeader = true) (command : List UInt8)
    (timestamp : SerializableInstant) :
    entriesOf
        (s.appendEntry codec noFailures overflowChecks command timestamp).1.logManager.logEntries =
      inserted (entriesOf s.logManager.logEntries)
        [.new s.raftNode.currentTerm (s.logManager.lastIndex + 1) command timestamp] := by
  unfold appendEntry
  rw [hlead]
  exact sameLogs_replicateToFollowers.entries.trans (entriesOf_insert _ _ _)

private theorem not_agree_appendEntry (h : s.Inv) (hlead : s.raftNode.isLeader = true)
    (command : List UInt8) (timestamp : SerializableInstant) :
    ¬ (s.appendEntry codec noFailures overflowChecks command timestamp).1.Agree := by
  intro hagree
  have hnode : (s.appendEntry codec noFailures overflowChecks command timestamp).1.raftNode =
      s.raftNode := by
    unfold appendEntry
    rw [hlead]
    rfl
  have hnone : indexed s.raftNode.log (s.logManager.lastIndex + 1) = none := by
    cases h.log with
    | inl hlog =>
      rw [← hlog, ← Option.not_isSome_iff_eq_none]
      intro hsome
      have := s.logManager.lastIndex_spec.1 _ hsome
      omega
    | inr hnil => simp [hnil, indexed]
  have hat := congrFun hagree.log (s.logManager.lastIndex + 1)
  rw [entriesOf_appendEntry hlead, hnode, hnone] at hat
  simp [inserted, LogEntry.new] at hat

theorem handleAppendEntriesResponse_eq (followerId : NodeId) (response : AppendEntriesResponse) :
    (s.handleAppendEntriesResponse overflowChecks followerId response).1 =
      { s with
        raftNode := (s.raftNode.handleAppendEntriesResponse followerId response).1
        logManager :=
          (s.logManager.handleAppendEntriesResponse overflowChecks followerId response).1 } := by
  unfold handleAppendEntriesResponse
  dsimp only
  rw [RaftNode.handleAppendEntriesResponse_ok]

/-- An answer changes neither log, and moves both commit indexes alike iff it commits the same for
both. -/
theorem agree_handleAppendEntriesResponse_iff (h : s.Inv) (followerId : NodeId)
    (response : AppendEntriesResponse) :
    (s.call codec overflowChecks (.appendEntriesResponse followerId response)).Agree ↔
      s.Agree ∧ s.KeepsAgreement (.appendEntriesResponse followerId response) := by
  obtain ⟨hlog, hnode⟩ := s.raftNode.handleAppendEntriesResponse_logs followerId response
  obtain ⟨hes, hmgr⟩ :=
    s.logManager.handleAppendEntriesResponse_logs followerId response overflowChecks
  have htargets : s.KeepsAgreement (.appendEntriesResponse followerId response) ↔
      s.raftNode.answerTarget followerId response =
        s.logManager.answerTarget followerId response := by
    rw [KeepsAgreement, Option.ext_iff]
    exact forall_congr' fun n =>
      iff_congr RaftNode.mem_answerTarget_iff.symm (mem_answerTarget_iff _ _ _).symm
  rw [← h.commit] at hmgr
  rw [call, handleAppendEntriesResponse_eq, htargets,
    ← getD_eq_getD_iff (fun n hn => (RaftNode.mem_answerTarget_iff.mp hn).2.2.2.2.1) fun n hn =>
      h.commit ▸ lt_of_commitsOn ((mem_answerTarget_iff _ _ _).mp hn), ← hnode, ← hmgr]
  constructor
  · intro hagree
    exact ⟨⟨hes.symm.trans (hagree.log.trans (congrArg indexed hlog)), h.commit⟩,
      hagree.commit⟩
  · intro hkeeps
    exact ⟨hes.trans (hkeeps.1.log.trans (congrArg indexed hlog.symm)), hkeeps.2⟩

private theorem agree_call_iff (h : s.Inv) (c : CoordinatorCall) :
    (s.call codec overflowChecks c).Agree ↔ (s.Agree ∨ s.Overwrites c) ∧ s.KeepsAgreement c := by
  cases c with
  | appendEntry command timestamp =>
    cases hlead : s.raftNode.isLeader with
    | true =>
      exact iff_of_false (not_agree_appendEntry h hlead command timestamp)
        fun hkeeps => by simp [KeepsAgreement, hlead] at hkeeps
    | false => simp [call, appendEntry, KeepsAgreement, Overwrites, hlead]
  | appendEntries request now => exact agree_handleAppendEntries_iff h request now
  | appendEntriesResponse followerId response =>
    simp only [Overwrites, or_false]
    exact agree_handleAppendEntriesResponse_iff h followerId response
  | voteRequest request now =>
    simp only [KeepsAgreement, Overwrites, or_false, and_true]
    exact (sameLogs_handleVoteRequest request now).agree_iff
  | voteResponse response now =>
    simp only [KeepsAgreement, Overwrites, or_false, and_true]
    exact (sameLogs_handleVoteResponse response now).agree_iff
  | consensusTick leaseValid electionTimeout now =>
    simp only [KeepsAgreement, Overwrites, or_false, and_true]
    exact (sameLogs_consensusTick leaseValid electionTimeout now).agree_iff

private theorem keyed_call (h : Keyed (entriesOf s.logManager.logEntries)) (c : CoordinatorCall) :
    Keyed (entriesOf (s.call codec overflowChecks c).logManager.logEntries) := by
  cases c with
  | appendEntry command timestamp =>
    cases hlead : s.raftNode.isLeader with
    | true =>
      rw [call, entriesOf_appendEntry hlead]
      exact h.inserted _
    | false => simpa [call, appendEntry, hlead] using h
  | appendEntries request now =>
    rw [call, handleAppendEntries_eq]
    split
    · split
      · exact h
      · rename_i hes
        obtain ⟨first, rest, hcons⟩ := List.exists_cons_of_ne_nil hes
        by_cases hcheck :
            s.logManager.checkLogConsistency request.prevLogIndex request.prevLogTerm = true
        · rw [(handleAppendEntriesRequest_spec hcheck hcons).1]
          exact (h.restrict first.index).inserted _
        · simpa [handleAppendEntriesRequest, hcheck] using h
    · exact h
  | appendEntriesResponse followerId response =>
    rw [call, handleAppendEntriesResponse_eq]
    dsimp only
    rw [(s.logManager.handleAppendEntriesResponse_logs _ _ _).1]
    exact h
  | voteRequest request now => exact h
  | voteResponse response now =>
    rw [call, (sameLogs_handleVoteResponse response now).entries]
    exact h
  | consensusTick leaseValid electionTimeout now =>
    rw [call, (sameLogs_consensusTick leaseValid electionTimeout now).entries]
    exact h

private theorem keyed_recoverFromWal (wal : WalStorage Data) :
    Keyed (entriesOf (recoverFromWal codec wal)) := by
  have hemp : Keyed (entriesOf ∅) := by
    intro i entry hi
    simp [entriesOf] at hi
  unfold recoverFromWal
  generalize wal.read 10000 = records
  generalize (∅ : TreeMap Nat RaftWalEntry) = logEntries at hemp ⊢
  induction records generalizing logEntries with
  | nil => exact hemp
  | cons record records ih =>
    refine ih _ ?_
    dsimp only
    split
    · rw [entriesOf_insert]
      exact hemp.inserted [_]
    · exact hemp

theorem Inv.agree_iff (h : s.Inv) (calls : List CoordinatorCall) :
    EachStep (call codec overflowChecks) (fun s c => (s.call codec overflowChecks c).Agree)
        s calls ↔
      (∀ c ∈ calls.head?, s.Agree ∨ s.Overwrites c) ∧
        EachStep (call codec overflowChecks) KeepsAgreement s calls := by
  induction calls generalizing s with
  | nil => simp [eachStep_nil]
  | cons c calls ih =>
    rw [eachStep_cons, eachStep_cons]
    have hafter : (s.call codec overflowChecks c).Agree →
        (s.call codec overflowChecks c).Inv := fun hagree =>
      ⟨keyed_call h.keyed c, hagree.commit, .inl hagree.log⟩
    constructor
    · rintro ⟨hagree, hrest⟩
      obtain ⟨hstart, hkeeps⟩ := (agree_call_iff h c).mp hagree
      exact ⟨by simpa using hstart, hkeeps, ((ih (hafter hagree)).mp hrest).2⟩
    · rintro ⟨hstart, hkeeps, hrest⟩
      have hagree : (s.call codec overflowChecks c).Agree :=
        (agree_call_iff h c).mpr ⟨hstart c rfl, hkeeps⟩
      exact ⟨hagree, (ih (hafter hagree)).mpr ⟨fun _ _ => .inl hagree, hrest⟩⟩

/-- The logs of a new coordinator are the same after each of some calls iff they are so at the
start, or the first call overwrites what the manager has recovered, and each call keeps them
so. -/
theorem logs_agree_iff (codec : Bincode Data) (overflowChecks : Bool) (nodeId : NodeId)
    (clusterSize : Nat) (config : RaftConfig) (wal : WalStorage Data) (peers : List NodeId)
    (calls : List CoordinatorCall) :
    let start := new codec nodeId clusterSize config wal peers
    EachStep (call codec overflowChecks) (fun s c => (s.call codec overflowChecks c).Agree)
        start calls ↔
      (∀ c ∈ calls.head?, start.Agree ∨ start.Overwrites c) ∧
        EachStep (call codec overflowChecks) KeepsAgreement start calls :=
  Inv.agree_iff ⟨keyed_recoverFromWal wal, rfl, .inr rfl⟩ calls

/-- A leader's entry never reaches the node's log; and a request without entries moves only the
node's commit index. -/
theorem leader_entry_only_in_manager :
    let start := new .plain ⟨0⟩ 3 .default ⟨[], 0⟩ [⟨1⟩, ⟨2⟩]
    let request : AppendEntriesRequest :=
      { term := 1, leaderId := ⟨1⟩, prevLogIndex := 0, prevLogTerm := 0
        entries := [.new 1 1 [7] ⟨0⟩], leaderCommit := 0, requestId := 0 }
    let s := [.consensusTick true true 0, .voteResponse ⟨1, true, false, none⟩ 1,
      .appendEntry [7] ⟨0⟩].foldl (call .plain true) start
    let t := [.appendEntries request 0, .appendEntries { request with
        prevLogIndex := 1, prevLogTerm := 1, entries := [], leaderCommit := 1 } 1].foldl
      (call .plain true) start
    entriesOf s.logManager.logEntries 1 = some (.new 1 1 [7] ⟨0⟩) ∧ s.raftNode.log = [] ∧
      ¬ s.Agree ∧ t.raftNode.commitIndex = 1 ∧ t.logManager.commitIndex = 0 ∧ ¬ t.Agree := by
  intro start request s t
  have hmgr : entriesOf s.logManager.logEntries 1 = some (.new 1 1 [7] ⟨0⟩) := by
    decide +kernel
  have hnode : s.raftNode.log = [] := by decide +kernel
  have hcom : t.raftNode.commitIndex = 1 ∧ t.logManager.commitIndex = 0 := by decide +kernel
  refine ⟨hmgr, hnode, fun h => ?_, hcom.1, hcom.2, fun h => ?_⟩
  · have hlog := congrFun h.log 1
    rw [hmgr, hnode] at hlog
    cases hlog
  · have := h.commit
    omega

end IntegratedRaftCoordinator

end Kaelix.Cluster.Raft
