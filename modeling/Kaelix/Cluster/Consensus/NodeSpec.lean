import Kaelix.Lib.Majority
import Kaelix.Lib.TermLog
import Kaelix.Cluster.Consensus.Node

/-!
# What one operation can do to a node

Each handler of `RaftNode` ends in one of a few outcomes; every invariant of a node is then a case
analysis on `Outcome`.
-/

namespace Kaelix.Cluster.Raft

open Lib

namespace RaftNode

/-! ## Outcomes -/

variable (self : RaftNode)

/-- A vote request steps the voter down only when its term is newer. -/
def caughtUp (term : Nat) : RaftNode :=
  if term > self.currentTerm then self.followed term else self

/-- One vote more. -/
def counted : RaftNode := { self with voteCount := self.voteCount + 1 }

/-- A follower of the leader that has sent the request. -/
def heard (request : AppendEntriesRequest) (now : Nat) : RaftNode :=
  { self.followed request.term with
    currentLeader := some request.leaderId
    lastHeartbeat := some now }

/-- The node after a request that it takes. -/
def accepted (request : AppendEntriesRequest) (now : Nat) : RaftNode :=
  ((self.heard request now).storeEntries request).followCommit request.leaderCommit

/-- The match index that an answer names. -/
def recordAck (followerId : NodeId) (lastLogIndex : Option Nat) : RaftNode :=
  match lastLogIndex with
  | some lastLogIndex =>
    { self with
      nextIndex := self.nextIndex.insert followerId (lastLogIndex + 1)
      matchIndex := self.matchIndex.insert followerId lastLogIndex }
  | none => self

/-- The next entry of a leader. -/
def newEntry (command : List UInt8) (timestamp : SerializableInstant) : LogEntry :=
  LogEntry.new self.currentTerm (self.log.length + 1) command timestamp

/-- The leader with one entry more. -/
def appended (command : List UInt8) (timestamp : SerializableInstant) : RaftNode :=
  { self with
    log := self.log ++ [self.newEntry command timestamp]
    metrics := { self.metrics with
      entriesAppended := self.metrics.entriesAppended + 1
      logSizeBytes := self.metrics.logSizeBytes + (self.newEntry command timestamp).size } }

/-- Every way in which a call can change a node. -/
inductive Outcome (a : RaftNode) : RaftNode → Prop
  | campaign (now : Nat) : Outcome a (a.startElection now).1
  | follow (term : Nat) (hterm : a.currentTerm ≤ term) : Outcome a (a.followed term)
  | vote (request : RequestVoteRequest) (now : Nat)
      (hterm : a.currentTerm ≤ request.term)
      (hgrant : (a.caughtUp request.term).grantsVote request = true) :
      Outcome a ((a.caughtUp request.term).withVote request.candidateId now)
  | count (hstate : a.state = .candidate)
      (hfew : a.voteCount + 1 < a.clusterSize / 2 + 1) : Outcome a a.counted
  | win (now : Nat) (hstate : a.state = .candidate)
      (hmany : a.clusterSize / 2 + 1 ≤ a.voteCount + 1) :
      Outcome a (a.counted.elected now)
  | hear (request : AppendEntriesRequest) (now : Nat)
      (hterm : a.currentTerm ≤ request.term)
      (hcons : a.checkLogConsistency request.prevLogIndex request.prevLogTerm = false) :
      Outcome a (a.heard request now)
  | accept (request : AppendEntriesRequest) (now : Nat)
      (hterm : a.currentTerm ≤ request.term)
      (hcons : a.checkLogConsistency request.prevLogIndex request.prevLogTerm = true) :
      Outcome a (a.accepted request now)
  | acknowledge (followerId : NodeId) (lastLogIndex : Option Nat)
      (hstate : a.state = .leader) :
      Outcome a (a.recordAck followerId lastLogIndex).tryAdvanceCommitIndex
  | conflict (followerId : NodeId) (response : AppendEntriesResponse)
      (hstate : a.state = .leader) :
      Outcome a (a.handleLogConflict followerId response)
  | append (command : List UInt8) (timestamp : SerializableInstant)
      (hstate : a.state = .leader) : Outcome a (a.appended command timestamp)
  | apply (applyFn : Nat → LogEntry → ConsensusResult Unit) :
      Outcome a (a.applyCommittedEntries applyFn).1

/-! ## Updates as single record updates

The helpers that branch are equal to one record update each, so that a field they
do not write is seen to be unchanged by `rfl`.
-/

variable {a : RaftNode} {term : Nat}

theorem caughtUp_cases (h : a.currentTerm ≤ term) :
    (a.currentTerm = term ∧ a.caughtUp term = a) ∨
      (a.currentTerm < term ∧ a.caughtUp term = a.followed term) := by
  unfold caughtUp
  by_cases hlt : term > a.currentTerm
  · exact .inr ⟨hlt, if_pos hlt⟩
  · exact .inl ⟨by omega, if_neg hlt⟩

theorem caughtUp_currentTerm (h : a.currentTerm ≤ term) :
    (a.caughtUp term).currentTerm = term := by
  rcases caughtUp_cases h with ⟨heq, hcu⟩ | ⟨_, hcu⟩
  · rw [hcu, heq]
  · rw [hcu]
    rfl

section

variable (a : RaftNode)

theorem storeEntries_eq (request : AppendEntriesRequest) :
    a.storeEntries request =
      { a with
        log := if request.entries = [] then a.log
          else a.log.take request.prevLogIndex ++ request.entries
        metrics := { a.metrics with
          entriesAppended := a.metrics.entriesAppended + request.entries.length } } := by
  unfold storeEntries appendNewEntries
  cases request.entries <;> rfl

theorem followCommit_eq (leaderCommit : Nat) :
    a.followCommit leaderCommit =
      { a with commitIndex :=
          if leaderCommit > a.commitIndex then min leaderCommit a.log.length
          else a.commitIndex } := by
  unfold followCommit
  split <;> rfl

section

variable (request : AppendEntriesRequest) (now : Nat)

theorem accepted_log :
    (a.accepted request now).log =
      if request.entries = [] then a.log
      else a.log.take request.prevLogIndex ++ request.entries := by
  rw [accepted, followCommit_eq, storeEntries_eq]
  rfl

theorem accepted_currentTerm :
    (a.accepted request now).currentTerm = request.term := by
  rw [accepted, followCommit_eq, storeEntries_eq]
  rfl

theorem accepted_commitIndex :
    (a.accepted request now).commitIndex =
      if request.leaderCommit > a.commitIndex then
        min request.leaderCommit (a.accepted request now).log.length
      else a.commitIndex := by
  rw [accepted, followCommit_eq, storeEntries_eq]
  rfl

end

end

theorem isLeader_iff : a.isLeader = true ↔ a.state = .leader := by
  simp [isLeader]

/-- The index `try_advance_commit_index` picks: the upper median of the match
indices. -/
def medianIndex : Nat :=
  self.sortedMatchIndices.getD (self.sortedMatchIndices.length / 2) 0

/-- The indices `try_advance_commit_index` looks at: the recorded match indices and
the length of the own log. -/
def replicas (a : RaftNode) : List Nat := a.matchIndex.values ++ [a.log.length]

theorem medianIndex_eq (a : RaftNode) : a.medianIndex = upperMedian a.replicas := by
  unfold medianIndex upperMedian sortedMatchIndices replicas
  rw [List.length_insertionSort]

/-- A leader has an entry of its term at the median. -/
def Advances : Prop :=
  self.state = .leader ∧ self.commitIndex < self.medianIndex ∧
    ∃ entry, self.entryAt self.medianIndex = some entry ∧
      entry.term = self.currentTerm

theorem tryAdvanceCommitIndex_of_advances (h : a.Advances) :
    a.tryAdvanceCommitIndex = { a with commitIndex := a.medianIndex } := by
  obtain ⟨hstate, hgt, entry, hent, hterm⟩ := h
  unfold tryAdvanceCommitIndex
  rw [isLeader_iff.mpr hstate]
  unfold medianIndex at hgt hent ⊢
  dsimp only
  rw [if_neg (by decide), if_pos hgt, hent]
  simp [hterm]

theorem tryAdvanceCommitIndex_of_not_advances (h : ¬ a.Advances) :
    a.tryAdvanceCommitIndex = a := by
  unfold tryAdvanceCommitIndex
  split
  · rfl
  · rename_i hlead
    have hstate : a.state = .leader := by simpa [isLeader] using hlead
    dsimp only
    split
    · rename_i hgt
      split
      · rename_i entry hent
        split
        · rename_i hterm
          exact absurd ⟨hstate, hgt, entry, hent, by simpa using hterm⟩ h
        · rfl
      · rfl
    · rfl

theorem tryAdvanceCommitIndex_eq (a : RaftNode) :
    a.tryAdvanceCommitIndex = { a with commitIndex := a.tryAdvanceCommitIndex.commitIndex } := by
  by_cases h : a.Advances
  · rw [tryAdvanceCommitIndex_of_advances h]
  · rw [tryAdvanceCommitIndex_of_not_advances h]

theorem handleLogConflict_eq (a : RaftNode) (followerId : NodeId)
    (response : AppendEntriesResponse) :
    a.handleLogConflict followerId response =
      { a with nextIndex := (a.handleLogConflict followerId response).nextIndex } := by
  unfold handleLogConflict
  repeat' split
  all_goals rfl

theorem indexAfterTerm_some {next : Nat} (h : a.indexAfterTerm term = some next) :
    ∃ i entry, next = i + 2 ∧ a.log[i]? = some entry ∧ entry.term = term := by
  unfold indexAfterTerm at h
  obtain ⟨j, hj, rfl⟩ := Option.map_eq_some_iff.mp h
  obtain ⟨hlt, hterm, _⟩ := List.findIdx?_eq_some_iff_getElem.mp hj
  rw [List.getElem_reverse] at hterm
  exact ⟨_, _, rfl, List.getElem?_eq_getElem _, by simpa using hterm⟩

theorem recordAck_eq (a : RaftNode) (followerId : NodeId) (lastLogIndex : Option Nat) :
    a.recordAck followerId lastLogIndex =
      { a with
        nextIndex := (a.recordAck followerId lastLogIndex).nextIndex
        matchIndex := (a.recordAck followerId lastLogIndex).matchIndex } := by
  cases lastLogIndex <;> rfl

private theorem applyLoop_eq (applyFn : Nat → LogEntry → ConsensusResult Unit)
    (left : Nat) : ∀ (calls : Nat) (a : RaftNode),
    (applyLoop applyFn left calls a).1 =
      { a with
        lastApplied := (applyLoop applyFn left calls a).1.lastApplied
        metrics := (applyLoop applyFn left calls a).1.metrics } := by
  induction left with
  | zero => intro calls a; rfl
  | succ left ih =>
    intro calls a
    simp only [applyLoop]
    split
    · split
      · rfl
      · rw [ih]
    · rfl

theorem applyCommittedEntries_eq (a : RaftNode) (applyFn : Nat → LogEntry → ConsensusResult Unit) :
    (a.applyCommittedEntries applyFn).1 =
      { a with
        lastApplied := (a.applyCommittedEntries applyFn).1.lastApplied
        metrics := (a.applyCommittedEntries applyFn).1.metrics } :=
  applyLoop_eq applyFn _ 0 a

/-! ## The handlers, one lemma per exit -/

theorem becomeFollower_of_le (h : a.currentTerm ≤ term) :
    a.becomeFollower term = (a.followed term, .ok ()) := by
  rw [becomeFollower, if_neg (by omega)]

variable {request : RequestVoteRequest}

theorem handleVoteRequest_stale (now : Nat) (h : request.term < a.currentTerm) :
    a.handleVoteRequest request now = (a, .ok (a.voteResponse request false)) := by
  rw [handleVoteRequest, if_pos h]

theorem handleVoteRequest_of_le (now : Nat) (h : a.currentTerm ≤ request.term) :
    a.handleVoteRequest request now =
      (if (a.caughtUp request.term).grantsVote request && !request.preVote then
          (a.caughtUp request.term).withVote request.candidateId now
        else a.caughtUp request.term,
       .ok ((a.caughtUp request.term).voteResponse request
          ((a.caughtUp request.term).grantsVote request))) := by
  rw [handleVoteRequest, if_neg (by omega)]
  rcases caughtUp_cases h with ⟨heq, hcu⟩ | ⟨hlt, hcu⟩
  · rw [if_neg (by omega), hcu]
    dsimp only
    split <;> rfl
  · rw [if_pos hlt, becomeFollower_of_le h, hcu]
    dsimp only
    split <;> rfl

variable {response : RequestVoteResponse}

variable (now : Nat)

theorem handleVoteResponse_newer (hstate : a.state = .candidate)
    (h : response.term > a.currentTerm) :
    (a.handleVoteResponse response now).1 = a.followed response.term := by
  simp [handleVoteResponse, isCandidate, hstate, h, becomeFollower_of_le h.le]

/-- A candidate gets a vote of its term. -/
def CountsVote (response : RequestVoteResponse) : Prop :=
  self.state = .candidate ∧ response.term = self.currentTerm ∧
    response.voteGranted = true

instance (a : RaftNode) (response : RequestVoteResponse) : Decidable (a.CountsVote response) :=
  inferInstanceAs (Decidable (_ ∧ _ ∧ _))

theorem handleVoteResponse_counted (h : a.CountsVote response) :
    (a.handleVoteResponse response now).1 =
      if a.voteCount + 1 < a.clusterSize / 2 + 1 then a.counted
      else a.counted.elected now := by
  obtain ⟨hstate, hterm, hgranted⟩ := h
  by_cases hfew : a.voteCount + 1 < a.clusterSize / 2 + 1
  · simp [handleVoteResponse, isCandidate, hstate, hterm, hgranted, counted, hfew,
      show ¬ a.clusterSize / 2 ≤ a.voteCount by omega]
  · simp [handleVoteResponse, isCandidate, hstate, hterm, hgranted, counted,
      becomeLeader, show ¬ a.voteCount < a.clusterSize / 2 by omega,
      show a.clusterSize / 2 ≤ a.voteCount by omega]

theorem handleVoteResponse_ignored (hcnt : ¬ a.CountsVote response)
    (hnewer : ¬ (a.state = .candidate ∧ response.term > a.currentTerm)) :
    (a.handleVoteResponse response now).1 = a := by
  by_cases hstate : a.state = .candidate
  · have hle : ¬ response.term > a.currentTerm := fun h => hnewer ⟨hstate, h⟩
    have hno : ¬ (response.term = a.currentTerm ∧ response.voteGranted = true) :=
      fun h => hcnt ⟨hstate, h⟩
    simp only [handleVoteResponse, isCandidate, hstate, hle, if_false]
    simp [hno]
  · simp [handleVoteResponse, isCandidate, hstate]

variable {request : AppendEntriesRequest}

private theorem handleAppendEntries_stale (h : request.term < a.currentTerm) :
    a.handleAppendEntries request now = (a, .ok (a.appendResponse request false none none)) := by
  rw [handleAppendEntries, if_pos h]

theorem handleAppendEntries_conflict (h : a.currentTerm ≤ request.term)
    (hcons : a.checkLogConsistency request.prevLogIndex request.prevLogTerm = false) :
    a.handleAppendEntries request now =
      (a.heard request now,
       .ok ((a.heard request now).appendResponse request false
          (some (a.findConflictInfo request.prevLogIndex).1)
          (a.findConflictInfo request.prevLogIndex).2)) := by
  rw [handleAppendEntries, if_neg (by omega), becomeFollower_of_le h]
  dsimp only
  rw [if_pos]
  · rfl
  · change (!a.checkLogConsistency _ _) = true
    rw [hcons]
    rfl

theorem handleAppendEntries_accepted (h : a.currentTerm ≤ request.term)
    (hcons : a.checkLogConsistency request.prevLogIndex request.prevLogTerm = true) :
    a.handleAppendEntries request now =
      (a.accepted request now,
       .ok ((a.accepted request now).appendResponse request true none none)) := by
  rw [handleAppendEntries, if_neg (by omega), becomeFollower_of_le h]
  dsimp only
  rw [if_neg]
  · rfl
  · change ¬ (!a.checkLogConsistency _ _) = true
    rw [hcons]
    simp

theorem handleAppendEntries_cases (a : RaftNode) (request : AppendEntriesRequest) (now : Nat) :
    (request.term < a.currentTerm ∧ a.handleAppendEntries request now =
        (a, .ok (a.appendResponse request false none none))) ∨
      (a.currentTerm ≤ request.term ∧
        a.checkLogConsistency request.prevLogIndex request.prevLogTerm = false ∧
        a.handleAppendEntries request now =
          (a.heard request now,
           .ok ((a.heard request now).appendResponse request false
              (some (a.findConflictInfo request.prevLogIndex).1)
              (a.findConflictInfo request.prevLogIndex).2))) ∨
      (a.currentTerm ≤ request.term ∧
        a.checkLogConsistency request.prevLogIndex request.prevLogTerm = true ∧
        a.handleAppendEntries request now =
          (a.accepted request now,
           .ok ((a.accepted request now).appendResponse request true none none))) := by
  rcases Nat.lt_or_ge request.term a.currentTerm with hlt | hle
  · exact .inl ⟨hlt, handleAppendEntries_stale now hlt⟩
  · cases hcons : a.checkLogConsistency request.prevLogIndex request.prevLogTerm with
    | false => exact .inr (.inl ⟨hle, rfl, handleAppendEntries_conflict now hle hcons⟩)
    | true => exact .inr (.inr ⟨hle, rfl, handleAppendEntries_accepted now hle hcons⟩)

variable {prevLogIndex prevLogTerm : Nat}

theorem checkLogConsistency_iff :
    a.checkLogConsistency prevLogIndex prevLogTerm = true ↔
      prevLogIndex = 0 ∨
        ∃ entry, a.entryAt prevLogIndex = some entry ∧ entry.term = prevLogTerm := by
  unfold checkLogConsistency
  by_cases h0 : prevLogIndex = 0
  · simp [h0]
  · cases hent : a.entryAt prevLogIndex with
    | _ => simp [h0]

theorem findConflictInfo_cases (h : a.checkLogConsistency prevLogIndex prevLogTerm = false) :
    0 < prevLogIndex ∧
      ((a.log.length < prevLogIndex ∧
          a.findConflictInfo prevLogIndex = (a.log.length, none)) ∨
        ∃ entry i, a.entryAt prevLogIndex = some entry ∧ entry.term ≠ prevLogTerm ∧
          i < prevLogIndex ∧ a.findConflictInfo prevLogIndex = (i + 1, some entry.term)) := by
  have hfail : ¬ (prevLogIndex = 0 ∨
      ∃ entry, a.entryAt prevLogIndex = some entry ∧ entry.term = prevLogTerm) := by
    rw [← checkLogConsistency_iff, h]
    decide
  rw [not_or, not_exists] at hfail
  have hpos := Nat.pos_of_ne_zero hfail.1
  refine ⟨hpos, ?_⟩
  unfold findConflictInfo
  rcases Nat.lt_or_ge a.log.length prevLogIndex with hsh | hlong
  · exact .inl ⟨hsh, if_pos hsh⟩
  · have hlt : prevLogIndex - 1 < a.log.length := by omega
    have hent : a.entryAt prevLogIndex = some a.log[prevLogIndex - 1] :=
      List.getElem?_eq_getElem hlt
    have hne : a.log[prevLogIndex - 1].term ≠ prevLogTerm :=
      fun hterm => hfail.2 _ ⟨hent, hterm⟩
    rw [if_neg (by omega), if_pos hpos, hent]
    cases hfirst : a.log.findIdx? (fun e => e.term == a.log[prevLogIndex - 1].term) with
    | none =>
      have hnone := List.findIdx?_eq_none_iff.mp hfirst _ (List.getElem_mem hlt)
      simp at hnone
    | some i =>
      obtain ⟨_, _, hbef⟩ := List.findIdx?_eq_some_iff_getElem.mp hfirst
      refine .inr ⟨_, i, rfl, hne, ?_, by simp [hfirst]⟩
      by_contra hge
      exact hbef (prevLogIndex - 1) (by omega) (by simp)

private theorem getEntriesFrom_succ (a : RaftNode) (prev : Nat) :
    a.getEntriesFrom (prev + 1) = a.log.drop prev := by
  unfold getEntriesFrom
  split
  · rename_i h
    have hlen : a.log.length ≤ prev := by
      simp only [Nat.add_eq_zero_iff, Bool.or_eq_true, beq_iff_eq, decide_eq_true_eq] at h
      omega
    exact (List.drop_eq_nil_of_le hlen).symm
  · rfl

/-- What a leader sends: a piece of its log that starts behind an entry of the
stated term. -/
structure Replicates (a : RaftNode) (request : AppendEntriesRequest) : Prop where
  state : a.state = .leader
  term : request.term = a.currentTerm
  leaderId : request.leaderId = a.nodeId
  leaderCommit : request.leaderCommit = a.commitIndex
  segment : Segment request.prevLogIndex request.entries a.log
  prev : request.prevLogIndex = 0 ∨
    ∃ entry, a.entryAt request.prevLogIndex = some entry ∧
      entry.term = request.prevLogTerm

variable {followerId : NodeId}

theorem createAppendEntries_ok {requestId : Nat}
    (h : a.createAppendEntries followerId requestId = .ok request) : a.Replicates request := by
  unfold createAppendEntries at h
  split at h
  · cases h
  · rename_i hlead
    have hstate : a.state = .leader := by simpa [isLeader] using hlead
    dsimp only at h
    split at h
    · rename_i h0
      have h0 : (a.nextIndex.lookup followerId).getD 1 - 1 = 0 := by simpa using h0
      obtain rfl := Except.ok.inj h
      refine ⟨hstate, rfl, rfl, rfl, ⟨by dsimp only; omega, ?_⟩, .inl h0⟩
      dsimp only
      rw [h0, getEntriesFrom_succ a 0]
      exact List.take_prefix _ _
    · rename_i h0
      have h0 : (a.nextIndex.lookup followerId).getD 1 - 1 ≠ 0 := by simpa using h0
      split at h
      · rename_i entry hent
        obtain rfl := Except.ok.inj h
        have hlt := (List.getElem?_eq_some_iff.mp hent).1
        refine ⟨hstate, rfl, rfl, rfl, ⟨by dsimp only; omega, ?_⟩, .inr ⟨entry, hent, rfl⟩⟩
        dsimp only
        rw [show (a.nextIndex.lookup followerId).getD 1 =
          (a.nextIndex.lookup followerId).getD 1 - 1 + 1 by omega,
          getEntriesFrom_succ]
        exact List.take_prefix _ _
      · cases h

/-- The index from which a follower is sent entries. -/
def nextIndexFor (followerId : NodeId) : Nat :=
  (self.nextIndex.lookup followerId).getD 1

theorem createAppendEntries_of_next_le (requestId : Nat) (hstate : a.state = .leader)
    (hnext : a.nextIndexFor followerId ≤ a.log.length + 1) :
    ∃ request, a.createAppendEntries followerId requestId = .ok request ∧
      request.prevLogIndex = a.nextIndexFor followerId - 1 := by
  have hlead : (!a.isLeader) = false := by rw [isLeader_iff.mpr hstate]; rfl
  unfold createAppendEntries
  unfold nextIndexFor at hnext ⊢
  rw [if_neg (by rw [hlead]; decide)]
  dsimp only
  by_cases h0 : (a.nextIndex.lookup followerId).getD 1 - 1 = 0
  · rw [if_pos (by simpa using h0)]
    exact ⟨_, rfl, rfl⟩
  · have hent : a.entryAt ((a.nextIndex.lookup followerId).getD 1 - 1) = some _ :=
      List.getElem?_eq_getElem (by omega)
    rw [if_neg (by simpa using h0), hent]
    exact ⟨_, rfl, rfl⟩

theorem Replicates.take_prev_eq {L : Nat → List LogEntry → Prop} (hL : Chain L)
    {a b : RaftNode} (hrep : b.Replicates request)
    (ha : Backed LogEntry.term L a.log) (hb : Backed LogEntry.term L b.log)
    (hcons : a.checkLogConsistency request.prevLogIndex request.prevLogTerm = true) :
    a.log.take request.prevLogIndex = b.log.take request.prevLogIndex := by
  rcases hrep.prev with h0 | ⟨e', he', hterm'⟩
  · rw [h0, List.take_zero, List.take_zero]
  · rcases checkLogConsistency_iff.mp hcons with h0 | ⟨e, he, hterm⟩
    · rw [h0, List.take_zero, List.take_zero]
    · have heq := ha.take_eq hL hb he he' (hterm.trans hterm'.symm)
      rcases Nat.eq_zero_or_pos request.prevLogIndex with h0 | hpos
      · rw [h0, List.take_zero, List.take_zero]
      · rwa [Nat.sub_add_cancel hpos] at heq

variable (followerId : NodeId)

theorem handleAppendEntriesResponse_ignored
    (response : AppendEntriesResponse) (h : a.state ≠ .leader) :
    (a.handleAppendEntriesResponse followerId response).1 = a := by
  simp [handleAppendEntriesResponse, isLeader, h]

variable {response : AppendEntriesResponse}

section

variable (hstate : a.state = .leader)
include hstate

theorem handleAppendEntriesResponse_newer (h : response.term > a.currentTerm) :
    (a.handleAppendEntriesResponse followerId response).1 = a.followed response.term := by
  simp [handleAppendEntriesResponse, isLeader, hstate, h, becomeFollower_of_le h.le]

theorem handleAppendEntriesResponse_success
    (h : response.term ≤ a.currentTerm) (hsucc : response.success = true) :
    (a.handleAppendEntriesResponse followerId response).1 =
      (a.recordAck followerId response.lastLogIndex).tryAdvanceCommitIndex := by
  rw [handleAppendEntriesResponse, isLeader_iff.mpr hstate, if_neg (by simp),
    if_neg (by omega), if_pos hsucc]
  cases response.lastLogIndex <;> rfl

theorem handleAppendEntriesResponse_failure
    (h : response.term ≤ a.currentTerm) (hsucc : response.success = false) :
    (a.handleAppendEntriesResponse followerId response).1 =
      a.handleLogConflict followerId response := by
  simp [handleAppendEntriesResponse, isLeader, hstate, hsucc,
    show ¬ response.term > a.currentTerm by omega]

end

theorem appendEntry_of_leader (command : List UInt8)
    (timestamp : SerializableInstant) (h : a.state = .leader) :
    (a.appendEntry command timestamp).1 = a.appended command timestamp := by
  rw [appendEntry, isLeader_iff.mpr h]
  rfl

theorem appendEntry_of_not_leader (command : List UInt8)
    (timestamp : SerializableInstant) (h : a.state ≠ .leader) :
    (a.appendEntry command timestamp).1 = a := by
  simp [appendEntry, isLeader, h]

end RaftNode

end Kaelix.Cluster.Raft
