import Kaelix.Cluster.Node.Address
import Mathlib.Data.List.Sort

/-!
# The Raft node

`RaftNode` of `kaelix-cluster/src/consensus/mod.rs` and its operations, as pure
functions on the node.  A method with `&mut self` returns the new node; one that
is fallible returns the node it leaves behind together with the `Result`.  What
the source reads from a clock, and the number `generate_request_id` draws from
its process-wide counter, are arguments.
-/

namespace Kaelix.Cluster.Raft

open Lib

/-- What a consensus call can fail with. -/
inductive ConsensusError
  | termMismatch (expected actual : Nat)
  | notLeader (leader : Option NodeId)
  | logInconsistency (details : String)
  | generic (message : String)
deriving DecidableEq

abbrev ConsensusResult (α : Type) := Except ConsensusError α

/-- A node's role. -/
inductive ConsensusState
  | follower
  | candidate
  | leader
deriving DecidableEq

structure RaftConfig where
  maxEntriesPerAppend : Nat
deriving DecidableEq

def RaftConfig.default : RaftConfig := { maxEntriesPerAppend := 100 }

/-- A node's counters. -/
structure RaftMetrics where
  electionsStarted : Nat := 0
  electionsWon : Nat := 0
  entriesAppended : Nat := 0
  entriesCommitted : Nat := 0
  lastElectionDuration : Option Nat := none
  logSizeBytes : Nat := 0
deriving DecidableEq

/-- Wall-clock time of an entry, in nanoseconds since the Unix epoch. -/
structure SerializableInstant where
  nanosSinceEpoch : Nat
deriving DecidableEq

/-- One command of the log. -/
structure LogEntry where
  term : Nat
  command : List UInt8
  index : Nat
  timestamp : SerializableInstant
  size : Nat
deriving DecidableEq

/-- `LogEntry::new`; the timestamp is the clock reading taken there. -/
def LogEntry.new (term : Nat) (index : Nat) (command : List UInt8)
    (timestamp : SerializableInstant) : LogEntry :=
  { term := term
    command := command
    index := index
    timestamp := timestamp
    size := command.length }

/-- A candidate's call for votes. -/
structure RequestVoteRequest where
  term : Nat
  candidateId : NodeId
  lastLogIndex : Nat
  lastLogTerm : Nat
  preVote : Bool
deriving DecidableEq

/-- Answer to a vote request.  It does not name the voter. -/
structure RequestVoteResponse where
  term : Nat
  voteGranted : Bool
  preVote : Bool
  lastLogIndex : Option Nat
deriving DecidableEq

/-- A leader's entries, or its heartbeat. -/
structure AppendEntriesRequest where
  term : Nat
  leaderId : NodeId
  prevLogIndex : Nat
  prevLogTerm : Nat
  entries : List LogEntry
  leaderCommit : Nat
  requestId : Nat
deriving DecidableEq

/-- The follower's answer. -/
structure AppendEntriesResponse where
  term : Nat
  success : Bool
  lastLogIndex : Option Nat
  conflictIndex : Option Nat
  conflictTerm : Option Nat
  requestId : Nat
deriving DecidableEq

/-- The state of a node. -/
structure RaftNode where
  nodeId : NodeId
  currentTerm : Nat
  state : ConsensusState
  votedFor : Option NodeId
  log : List LogEntry
  commitIndex : Nat
  lastApplied : Nat
  nextIndex : HashMap NodeId Nat
  matchIndex : HashMap NodeId Nat
  currentLeader : Option NodeId
  lastHeartbeat : Option Nat
  electionStart : Option Nat
  voteCount : Nat
  clusterSize : Nat
  config : RaftConfig
  metrics : RaftMetrics

namespace RaftNode

def new (nodeId : NodeId) (clusterSize : Nat) (config : RaftConfig) : RaftNode :=
  { nodeId := nodeId
    currentTerm := 0
    state := .follower
    votedFor := none
    log := []
    commitIndex := 0
    lastApplied := 0
    nextIndex := ∅
    matchIndex := ∅
    currentLeader := none
    lastHeartbeat := none
    electionStart := none
    voteCount := 0
    clusterSize := clusterSize
    config := config
    metrics := {} }

section

variable (self : RaftNode)

def isLeader : Bool := self.state == .leader

def isCandidate : Bool := self.state == .candidate

/-! ## Private helpers -/

/-- The entry at an index, which starts with 1. -/
def entryAt (index : Nat) : Option LogEntry := self.log[index - 1]?

/-- Index and term of the last entry. -/
def lastLogInfo : Nat × Nat :=
  match self.log.getLast? with
  | some lastEntry => (lastEntry.index, lastEntry.term)
  | none => (0, 0)

/-- `is_log_up_to_date`: is a candidate's log at least as up to date as ours? -/
def isLogUpToDate (lastLogIndex : Nat) (lastLogTerm : Nat) : Bool :=
  let (ourLastIndex, ourLastTerm) := self.lastLogInfo
  if lastLogTerm != ourLastTerm then lastLogTerm > ourLastTerm
  else lastLogIndex ≥ ourLastIndex

section

variable (prevLogIndex : Nat)

/-- The log has the entry that a request follows on. -/
def checkLogConsistency (prevLogTerm : Nat) : Bool :=
  if prevLogIndex == 0 then true
  else
    match self.entryAt prevLogIndex with
    | some entry => entry.term == prevLogTerm
    | none => false

/-- `find_conflict_info`: where the leader should look next.  With a conflicting
entry it is the first entry of that entry's term. -/
def findConflictInfo : Nat × Option Nat :=
  if prevLogIndex > self.log.length then (self.log.length, none)
  else if prevLogIndex > 0 then
    match self.entryAt prevLogIndex with
    | some entry =>
      match self.log.findIdx? (fun logEntry => logEntry.term == entry.term) with
      | some i => (i + 1, some entry.term)
      | none => (1, none)
    | none => (1, none)
  else (1, none)

/-- `append_new_entries`: cut the log at `prev_log_index`, then append. -/
def appendNewEntries (entries : List LogEntry) : RaftNode :=
  { self with log := self.log.take prevLogIndex ++ entries }

end

def getEntriesFrom (startIndex : Nat) : List LogEntry :=
  if startIndex == 0 || startIndex > self.log.length then []
  else self.log.drop (startIndex - 1)

/-- `get_peer_ids`: the source returns the empty vector. -/
def getPeerIds (_self : RaftNode) : List NodeId := []

/-- The recorded match indices and the length of the own log, ascending. -/
def sortedMatchIndices : List Nat :=
  (self.matchIndex.values ++ [self.log.length]).insertionSort (· ≤ ·)

/-- `try_advance_commit_index`: move to the upper median of the match indices if
its entry is of the current term. -/
def tryAdvanceCommitIndex : RaftNode :=
  if !self.isLeader then self
  else
    let matchIndices := self.sortedMatchIndices
    let majorityIndex := matchIndices.length / 2
    let newCommitIndex := matchIndices.getD majorityIndex 0
    if newCommitIndex > self.commitIndex then
      match self.entryAt newCommitIndex with
      | some entry =>
        if entry.term == self.currentTerm then
          { self with commitIndex := newCommitIndex }
        else self
      | none => self
    else self

/-- Index after the last entry of `term`, as the reverse scan of
`handle_log_conflict` finds it. -/
def indexAfterTerm (term : Nat) : Option Nat :=
  (self.log.reverse.findIdx? (fun entry => entry.term == term)).map fun j =>
    self.log.length - 1 - j + 2

/-- The next index after a failure. -/
def handleLogConflict (followerId : NodeId) (response : AppendEntriesResponse) : RaftNode :=
  match response.conflictIndex with
  | some conflictIndex =>
    match response.conflictTerm with
    | some term =>
      let nextIndex := (self.indexAfterTerm term).getD conflictIndex
      { self with nextIndex := self.nextIndex.insert followerId nextIndex }
    | none =>
      { self with nextIndex := self.nextIndex.insert followerId conflictIndex }
  | none =>
    match self.nextIndex.lookup followerId with
    | some nextIdx =>
      if nextIdx > 1 then
        { self with nextIndex := self.nextIndex.insert followerId (nextIdx - 1) }
      else self
    | none => self

/-! ## Elections -/

/-- The node stands in the next term, with its own vote. -/
def startElection (now : Nat) : RaftNode × RequestVoteRequest :=
  let self := { self with
    currentTerm := self.currentTerm + 1
    state := .candidate
    votedFor := some self.nodeId
    currentLeader := none
    electionStart := some now
    voteCount := 1
    metrics := { self.metrics with
      electionsStarted := self.metrics.electionsStarted + 1 } }
  (self,
    { term := self.currentTerm
      candidateId := self.nodeId
      lastLogIndex := self.lastLogInfo.1
      lastLogTerm := self.lastLogInfo.2
      preVote := false })

/-- The fields `become_follower` sets.  The vote is cleared whether or not the
term is new. -/
def followed (term : Nat) : RaftNode :=
  { self with
    currentTerm := term
    state := .follower
    votedFor := none
    electionStart := none
    voteCount := 0 }

/-- The vote is cleared even in the same term. -/
def becomeFollower (term : Nat) : RaftNode × ConsensusResult Unit :=
  if term < self.currentTerm then
    (self, .error (.termMismatch self.currentTerm term))
  else (self.followed term, .ok ())

/-- The indices are reset for the peers that are known. -/
def elected (now : Nat) : RaftNode :=
  let lastLogIndex := self.log.length
  { self with
    state := .leader
    currentLeader := some self.nodeId
    electionStart := none
    nextIndex := self.getPeerIds.foldl
      (fun m peerId => m.insert peerId (lastLogIndex + 1)) self.nextIndex
    matchIndex := self.getPeerIds.foldl (fun m peerId => m.insert peerId 0) self.matchIndex
    metrics := { self.metrics with
      electionsWon := self.metrics.electionsWon + 1
      lastElectionDuration :=
        match self.electionStart with
        | some electionStart => some (now - electionStart)
        | none => self.metrics.lastElectionDuration } }

def becomeLeader (now : Nat) : RaftNode × ConsensusResult Unit :=
  if self.state != .candidate then
    (self, .error (.generic "Can only become leader from candidate state"))
  else (self.elected now, .ok ())

section

variable (request : RequestVoteRequest)

def voteResponse (voteGranted : Bool) : RequestVoteResponse :=
  { term := self.currentTerm
    voteGranted := voteGranted
    preVote := request.preVote
    lastLogIndex := some self.lastLogInfo.1 }

/-- `can_vote && candidate_log_ok` of `handle_vote_request`. -/
def grantsVote : Bool :=
  let canVote := self.votedFor.isNone || self.votedFor == some request.candidateId
  let candidateLogOk := self.isLogUpToDate request.lastLogIndex request.lastLogTerm
  canVote && candidateLogOk

/-- The vote of `handle_vote_request`, which also resets the election timer. -/
def withVote (candidateId : NodeId) (now : Nat) : RaftNode :=
  { self with votedFor := some candidateId, lastHeartbeat := some now }

/-- A vote for a candidate whose log is up to date. -/
def handleVoteRequest (now : Nat) : RaftNode × ConsensusResult RequestVoteResponse :=
  if request.term < self.currentTerm then
    (self, .ok (self.voteResponse request false))
  else
    let (self, stepped) :=
      if request.term > self.currentTerm then self.becomeFollower request.term
      else (self, .ok ())
    match stepped with
    | .error e => (self, .error e)
    | .ok () =>
      let voteGranted := self.grantsVote request
      let self :=
        if voteGranted && !request.preVote then
          self.withVote request.candidateId now
        else self
      (self, .ok (self.voteResponse request voteGranted))

end

/-- `handle_vote_response`; `true` when the node has just become leader. -/
def handleVoteResponse (response : RequestVoteResponse)
    (now : Nat) : RaftNode × ConsensusResult Bool :=
  if !self.isCandidate then (self, .ok false)
  else if response.term > self.currentTerm then
    match self.becomeFollower response.term with
    | (self, .error e) => (self, .error e)
    | (self, .ok ()) => (self, .ok false)
  else if response.term == self.currentTerm && response.voteGranted then
    let self := { self with voteCount := self.voteCount + 1 }
    let majority := self.clusterSize / 2 + 1
    if self.voteCount ≥ majority then
      match self.becomeLeader now with
      | (self, .error e) => (self, .error e)
      | (self, .ok ()) => (self, .ok true)
    else (self, .ok false)
  else (self, .ok false)

/-! ## Log replication -/

section

variable (request : AppendEntriesRequest)

def appendResponse (success : Bool) (conflictIndex : Option Nat)
    (conflictTerm : Option Nat) : AppendEntriesResponse :=
  { term := self.currentTerm
    success := success
    lastLogIndex := some self.lastLogInfo.1
    conflictIndex := conflictIndex
    conflictTerm := conflictTerm
    requestId := request.requestId }

/-- The entries of an accepted request replace everything after
`prev_log_index`; a heartbeat leaves the log alone. -/
def storeEntries : RaftNode :=
  if !request.entries.isEmpty then
    let self := self.appendNewEntries request.prevLogIndex request.entries
    { self with metrics := { self.metrics with
        entriesAppended := self.metrics.entriesAppended + request.entries.length } }
  else self

/-- The commit index of an accepted request, cut to the length of the own log. -/
def followCommit (leaderCommit : Nat) : RaftNode :=
  if leaderCommit > self.commitIndex then
    { self with commitIndex := min leaderCommit self.log.length }
  else self

/-- A request is taken unless it is stale or does not fit. -/
def handleAppendEntries (now : Nat) : RaftNode × ConsensusResult AppendEntriesResponse :=
  if request.term < self.currentTerm then
    (self, .ok (self.appendResponse request false none none))
  else
    match self.becomeFollower request.term with
    | (self, .error e) => (self, .error e)
    | (self, .ok ()) =>
      let self := { self with
        currentLeader := some request.leaderId
        lastHeartbeat := some now }
      if !self.checkLogConsistency request.prevLogIndex request.prevLogTerm then
        let (conflictIndex, conflictTerm) := self.findConflictInfo request.prevLogIndex
        (self, .ok (self.appendResponse request false (some conflictIndex) conflictTerm))
      else
        let self := self.storeEntries request
        let self := self.followCommit request.leaderCommit
        (self, .ok (self.appendResponse request true none none))

end

/-- The entries from the next index on. -/
def createAppendEntries (followerId : NodeId)
    (requestId : Nat) : ConsensusResult AppendEntriesRequest :=
  if !self.isLeader then .error (.notLeader self.currentLeader)
  else
    let nextIndex := (self.nextIndex.lookup followerId).getD 1
    let prevLogIndex := nextIndex - 1
    let request := fun (prevLogTerm : Nat) (entries : List LogEntry) =>
      { term := self.currentTerm
        leaderId := self.nodeId
        prevLogIndex := prevLogIndex
        prevLogTerm := prevLogTerm
        entries := entries.take self.config.maxEntriesPerAppend
        leaderCommit := self.commitIndex
        requestId := requestId }
    if prevLogIndex == 0 then .ok (request 0 (self.getEntriesFrom 1))
    else
      match self.entryAt prevLogIndex with
      | some prevEntry => .ok (request prevEntry.term (self.getEntriesFrom nextIndex))
      | none =>
        .error (.logInconsistency s!"Missing log entry at index {prevLogIndex}")

/-- The leader learns what a follower has. -/
def handleAppendEntriesResponse (followerId : NodeId)
    (response : AppendEntriesResponse) : RaftNode × ConsensusResult Unit :=
  if !self.isLeader then (self, .ok ())
  else if response.term > self.currentTerm then self.becomeFollower response.term
  else if response.success then
    let self :=
      match response.lastLogIndex with
      | some lastLogIndex =>
        { self with
          nextIndex := self.nextIndex.insert followerId (lastLogIndex + 1)
          matchIndex := self.matchIndex.insert followerId lastLogIndex }
      | none => self
    (self.tryAdvanceCommitIndex, .ok ())
  else (self.handleLogConflict followerId response, .ok ())

def appendEntry (command : List UInt8)
    (timestamp : SerializableInstant) : RaftNode × ConsensusResult Nat :=
  if !self.isLeader then (self, .error (.notLeader self.currentLeader))
  else
    let index := self.log.length + 1
    let entry := LogEntry.new self.currentTerm index command timestamp
    ({ self with
        log := self.log ++ [entry]
        metrics := { self.metrics with
          entriesAppended := self.metrics.entriesAppended + 1
          logSizeBytes := self.metrics.logSizeBytes + entry.size } }, .ok index)

end

/-- The loop of `apply_committed_entries`, with the number of entries left to
apply.  `apply_fn` is stateful in the source; its answer may depend on the number
of calls made before. -/
def applyLoop (applyFn : Nat → LogEntry → ConsensusResult Unit) :
    Nat → Nat → RaftNode → RaftNode × ConsensusResult Unit
  | 0, _, self => (self, .ok ())
  | left + 1, calls, self =>
    let self := { self with lastApplied := self.lastApplied + 1 }
    match self.entryAt self.lastApplied with
    | some entry =>
      match applyFn calls entry with
      | .error e => (self, .error e)
      | .ok () =>
        applyLoop applyFn left (calls + 1) { self with
          metrics := { self.metrics with
            entriesCommitted := self.metrics.entriesCommitted + 1 } }
    | none =>
      let lastApplied := self.lastApplied
      (self, .error (.logInconsistency s!"Missing committed entry at index {lastApplied}"))

def applyCommittedEntries (self : RaftNode) (applyFn : Nat → LogEntry → ConsensusResult Unit) :
    RaftNode × ConsensusResult Unit :=
  applyLoop applyFn (self.commitIndex - self.lastApplied) 0 self

end RaftNode

end Kaelix.Cluster.Raft
