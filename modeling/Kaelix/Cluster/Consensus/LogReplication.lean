import Kaelix.Cluster.Consensus.Node
import Kaelix.Lib.Overflow
import Std.Data.TreeMap.Lemmas

/-!
# The log-replication manager

`LogReplicationManager` of `raft/log_replication.rs`: a log in memory whose entries are first
written to a write-ahead log.  A write may fail; the failures are given by the number of the write.
Serialization does not fail and can be undone.  Metrics, clocks and acknowledgements of single
entries are left out, and with them all that is kept of a pending request but its number.
-/

namespace Kaelix.Cluster.Raft

open Lib Std

/-- The codec of the entries. -/
structure Bincode (Data : Type) where
  serialize : LogEntry → Data
  deserialize : Data → Option LogEntry
  roundTrip : ∀ entry, deserialize (serialize entry) = some entry

def Bincode.plain : Bincode LogEntry :=
  { serialize := id, deserialize := some, roundTrip := fun _ => rfl }

/-- Which writes fail, and why. -/
abbrev WriteFailures := Nat → Option String

def noFailures : WriteFailures := fun _ => none

/-- The records in the log file. -/
structure WalStorage (Data : Type) where
  records : List Data
  writes : Nat

variable {Data : Type}

/-- A record at the end, unless the write fails. -/
def WalStorage.write (failures : WriteFailures) (self : WalStorage Data) (data : Data) :
    WalStorage Data × Except String Nat :=
  match failures self.writes with
  | some e => ({ self with writes := self.writes + 1 }, .error e)
  | none =>
    ({ records := self.records ++ [data], writes := self.writes + 1 },
      .ok (self.records.length + 1))

/-- The first records with their positions. -/
def WalStorage.read (self : WalStorage Data) (maxEntries : Nat) : List (Data × Nat) :=
  (self.records.take maxEntries).zipIdx 1

/-- How far an entry has come. -/
inductive CommitStatus where
  | pending
  | committed
  | compacting
  deriving DecidableEq

/-- An entry with its place in the file. -/
structure RaftWalEntry where
  raftEntry : LogEntry
  walSequence : Nat
  commitStatus : CommitStatus
  deriving DecidableEq

def RaftWalEntry.pending (raftEntry : LogEntry) (walSequence : Nat) : RaftWalEntry :=
  { raftEntry, walSequence, commitStatus := .pending }

/-- What the leader knows about a follower. -/
structure FollowerState where
  nextIndex : Nat
  matchIndex : Nat
  consecutiveFailures : Nat
  pipelineDepth : Nat
  catchingUp : Bool

namespace FollowerState

def new (nextIndex : Nat) : FollowerState :=
  { nextIndex, matchIndex := 0, consecutiveFailures := 0, pipelineDepth := 0, catchingUp := false }

variable (self : FollowerState)

def onSuccess (matchedIndex : Nat) : FollowerState :=
  { self with
    matchIndex := matchedIndex
    nextIndex := matchedIndex + 1
    consecutiveFailures := 0
    pipelineDepth := self.pipelineDepth - 1 }

/-- `on_failure`.  The number of failures may exceed the next index. -/
def onFailure (overflowChecks : Bool) : FollowerState × Except Panic Unit :=
  let self := { self with
    consecutiveFailures := self.consecutiveFailures + 1
    pipelineDepth := 0 }
  let back := min self.consecutiveFailures 10
  if self.nextIndex > 1 then
    if back ≤ self.nextIndex then
      ({ self with nextIndex := max 1 (self.nextIndex - back) }, .ok ())
    else if overflowChecks then (self, .error ⟨"attempt to subtract with overflow"⟩)
    else ({ self with nextIndex := 2 ^ 64 + self.nextIndex - back }, .ok ())
  else (self, .ok ())

def isCatchingUp (leaderLastIndex : Nat) : Bool :=
  self.catchingUp || decide (leaderLastIndex - self.matchIndex > 100)

end FollowerState

/-- The manager with its log and its followers. -/
structure LogReplicationManager (Data : Type) where
  nodeId : NodeId
  walStorage : WalStorage Data
  logEntries : TreeMap Nat RaftWalEntry
  commitIndex : Nat
  lastApplied : Nat
  matchIndex : HashMap NodeId Nat
  config : RaftConfig
  requestCounter : Nat
  /-- The numbers of the requests that were not answered. -/
  pendingRequests : List Nat
  followerState : HashMap NodeId FollowerState

namespace LogReplicationManager

/-- The log that `recover_from_wal` builds.  Records that cannot be read are skipped. -/
def recoverFromWal (codec : Bincode Data) (wal : WalStorage Data) : TreeMap Nat RaftWalEntry :=
  (wal.read 10000).foldl (fun logEntries record =>
    match codec.deserialize record.1 with
    | some entry => logEntries.insert entry.index (.pending entry record.2)
    | none => logEntries) ∅

def new (codec : Bincode Data) (nodeId : NodeId) (wal : WalStorage Data) (config : RaftConfig) :
    LogReplicationManager Data :=
  { nodeId
    walStorage := wal
    logEntries := recoverFromWal codec wal
    commitIndex := 0
    lastApplied := 0
    matchIndex := ∅
    config
    requestCounter := 0
    pendingRequests := []
    followerState := ∅ }

variable (self : LogReplicationManager Data)

/-- `log_entries.keys().last()`, and zero for the empty log. -/
def lastIndex : Nat := self.logEntries.keys.getLast?.getD 0

section Write

variable (codec : Bincode Data) (failures : WriteFailures)

/-- Write an entry to the write-ahead log, then to the log in memory. -/
def store (entry : LogEntry) : LogReplicationManager Data × Except String Unit :=
  match self.walStorage.write failures (codec.serialize entry) with
  | (wal, .error e) => ({ self with walStorage := wal }, .error e)
  | (wal, .ok walSequence) =>
    ({ self with
        walStorage := wal
        logEntries := self.logEntries.insert entry.index (.pending entry walSequence) }, .ok ())

def appendEntry (term : Nat) (command : List UInt8) (timestamp : SerializableInstant) :
    LogReplicationManager Data × ConsensusResult Nat :=
  let nextIndex := self.lastIndex + 1
  match self.store codec failures (.new term nextIndex command timestamp) with
  | (self, .error e) => (self, .error (.generic s!"WAL write failed: {e}"))
  | (self, .ok ()) => (self, .ok nextIndex)

/-- The loop of `handle_append_entries_request` over the entries; it stops at the first write that
fails. -/
def storeAll (self : LogReplicationManager Data) : List LogEntry → LogReplicationManager Data × Bool
  | [] => (self, true)
  | entry :: entries =>
    match self.store codec failures entry with
    | (self, .error _) => (self, false)
    | (self, .ok ()) => self.storeAll entries

end Write

def checkLogConsistency (prevLogIndex prevLogTerm : Nat) : Bool :=
  if prevLogIndex == 0 then true
  else
    match self.logEntries[prevLogIndex]? with
    | some entry => entry.raftEntry.term == prevLogTerm
    | none => false

def findConflictInfo (prevLogIndex : Nat) : Nat × Option Nat :=
  if prevLogIndex > self.lastIndex then (self.lastIndex, none)
  else if prevLogIndex > 0 then
    match self.logEntries[prevLogIndex]? with
    | some entry =>
      match self.logEntries.toList.find? fun e => e.2.raftEntry.term == entry.raftEntry.term with
      | some (index, _) => (index, some entry.raftEntry.term)
      | none => (1, none)
    | none => (1, none)
  else (1, none)

/-- The log before an index. -/
def truncate (index : Nat) : LogReplicationManager Data :=
  { self with logEntries := self.logEntries.filter fun i _ => decide (i < index) }

/-- A new commit index; the entries up to it are committed. -/
def commitTo (newCommit : Nat) : LogReplicationManager Data :=
  { self with
    commitIndex := newCommit
    logEntries := (List.range' (self.commitIndex + 1) (newCommit - self.commitIndex)).foldl
      (fun logEntries index =>
        logEntries.modify index fun entry => { entry with commitStatus := .committed })
      self.logEntries }

/-- The end of `handle_append_entries_request`: follow the leader's commit index. -/
def followCommit (leaderCommit : Nat) : LogReplicationManager Data :=
  if leaderCommit > self.commitIndex then
    let newCommit := min leaderCommit self.lastIndex
    if newCommit > self.commitIndex then self.commitTo newCommit else self
  else self

def respond (request : AppendEntriesRequest) (success : Bool)
    (lastLogIndex conflictIndex conflictTerm : Option Nat) : AppendEntriesResponse :=
  { term := request.term
    success
    lastLogIndex
    conflictIndex
    conflictTerm
    requestId := request.requestId }

def handleAppendEntriesRequest (codec : Bincode Data) (failures : WriteFailures)
    (request : AppendEntriesRequest) : LogReplicationManager Data × AppendEntriesResponse :=
  if !self.checkLogConsistency request.prevLogIndex request.prevLogTerm then
    let (conflictIndex, conflictTerm) := self.findConflictInfo request.prevLogIndex
    (self, respond request false none (some conflictIndex) conflictTerm)
  else
    let (self, stored) :=
      match request.entries with
      | [] => (self, true)
      | first :: _ => (self.truncate first.index).storeAll codec failures request.entries
    if !stored then (self, respond request false none none none)
    else
      let self := self.followCommit request.leaderCommit
      (self, respond request true (some self.lastIndex) none none)

/-! ## The leader's side -/

def initializeFollowers (followers : List NodeId) : LogReplicationManager Data :=
  { self with
    followerState := followers.foldl
      (fun states followerId => states.insert followerId (.new (self.lastIndex + 1)))
      self.followerState }

/-- At most `limit` entries without a gap, from an index on. -/
def entriesFrom (logEntries : TreeMap Nat RaftWalEntry) (index : Nat) : Nat → List LogEntry
  | 0 => []
  | limit + 1 =>
    match logEntries[index]? with
    | some entry => entry.raftEntry :: entriesFrom logEntries (index + 1) limit
    | none => []

/-- The next index of a follower.  A follower that is not known gets a new state. -/
def nextIndexFor (followerId : NodeId) : LogReplicationManager Data × Nat :=
  match self.followerState.lookup followerId with
  | some state => (self, state.nextIndex)
  | none => (self.initializeFollowers [followerId], self.lastIndex + 1)

/-- How many entries a request may have: twice as many for a follower that is catching up. -/
def maxEntries (overflowChecks catchingUp : Bool) : Except Panic Nat :=
  let max := self.config.maxEntriesPerAppend
  if catchingUp then
    if overflowChecks ∧ 2 ^ 64 ≤ max * 2 then .error ⟨"attempt to multiply with overflow"⟩
    else .ok (max * 2 % 2 ^ 64)
  else .ok max

def createAppendEntriesRequest (overflowChecks : Bool) (followerId : NodeId)
    (currentTerm leaderCommit : Nat) :
    LogReplicationManager Data × Except Panic (ConsensusResult AppendEntriesRequest) :=
  let followerState := self.followerState.lookup followerId
  let (self, nextIndex) := self.nextIndexFor followerId
  let prevLogIndex := nextIndex - 1
  let prevLogTerm :=
    if prevLogIndex == 0 then some 0
    else self.logEntries[prevLogIndex]?.map fun entry => entry.raftEntry.term
  match prevLogTerm with
  | none => (self, .ok (.error (.logInconsistency s!"Missing log entry at index {prevLogIndex}")))
  | some prevLogTerm =>
    match self.maxEntries overflowChecks
      (followerState.any fun state => state.isCatchingUp self.lastIndex) with
    | .error p => (self, .error p)
    | .ok maxEntries =>
      let requestId := self.requestCounter
      ({ self with
          requestCounter := requestId + 1
          pendingRequests := requestId :: self.pendingRequests
          followerState :=
            match followerState with
            | some state =>
              self.followerState.insert followerId
                { state with pipelineDepth := state.pipelineDepth + 1 }
            | none => self.followerState },
        .ok (.ok
          { term := currentTerm
            leaderId := self.nodeId
            prevLogIndex
            prevLogTerm
            entries := entriesFrom self.logEntries nextIndex maxEntries
            leaderCommit
            requestId }))

def updateFollower (followerId : NodeId) (f : FollowerState → FollowerState) :
    LogReplicationManager Data :=
  match self.followerState.lookup followerId with
  | some state => { self with followerState := self.followerState.insert followerId (f state) }
  | none => self

/-- A follower has the log up to an index. -/
def recordMatch (followerId : NodeId) (lastLogIndex : Nat) : LogReplicationManager Data :=
  let self := self.updateFollower followerId fun state => state.onSuccess lastLogIndex
  { self with matchIndex := self.matchIndex.insert followerId lastLogIndex }

/-- The last entry of a term up to an index. -/
def lastOfTerm (conflictIndex term : Nat) : Option Nat :=
  (self.logEntries.toList.findRev? fun e =>
    decide (e.1 ≤ conflictIndex) && e.2.raftEntry.term == term).map Prod.fst

def handleLogConflict (followerId : NodeId) (conflictIndex : Nat) (conflictTerm : Option Nat) :
    LogReplicationManager Data :=
  self.updateFollower followerId fun state =>
    { state with nextIndex :=
        match conflictTerm with
        | some term => ((self.lastOfTerm conflictIndex term).map (· + 1)).getD conflictIndex
        | none => max conflictIndex 1 }

/-- The own last index counts as well. -/
def sortedMatchIndices : List Nat :=
  (self.matchIndex.values ++ self.logEntries.keys.getLast?.toList).insertionSort (· ≤ ·)

/-- `try_advance_commit_index`: to the upper median of the indices, whatever the term there. -/
def tryAdvanceCommitIndex : LogReplicationManager Data :=
  match self.sortedMatchIndices[self.sortedMatchIndices.length / 2]? with
  | some newCommitIndex =>
    if newCommitIndex > self.commitIndex && self.logEntries.contains newCommitIndex then
      self.commitTo newCommitIndex
    else self
  | none => self

def replicationFailed (overflowChecks : Bool) (followerId : NodeId)
    (response : AppendEntriesResponse) : LogReplicationManager Data × Except Panic Unit :=
  let result :=
    match self.followerState.lookup followerId with
    | some state => (state.onFailure overflowChecks).2
    | none => .ok ()
  let self := self.updateFollower followerId fun state => (state.onFailure overflowChecks).1
  match result, response.conflictIndex with
  | .ok (), some conflictIndex =>
    (self.handleLogConflict followerId conflictIndex response.conflictTerm, .ok ())
  | _, _ => (self, result)

def handleAppendEntriesResponse (overflowChecks : Bool) (followerId : NodeId)
    (response : AppendEntriesResponse) : LogReplicationManager Data × Except Panic Unit :=
  if response.requestId ∈ self.pendingRequests then
    let self := { self with pendingRequests := self.pendingRequests.erase response.requestId }
    if response.success then
      match response.lastLogIndex with
      | some lastLogIndex =>
        ((self.recordMatch followerId lastLogIndex).tryAdvanceCommitIndex, .ok ())
      | none => (self, .ok ())
    else self.replicationFailed overflowChecks followerId response
  else (self, .ok ())

/-! ## The entries -/

/-- The entries without their places. -/
def entriesOf (logEntries : TreeMap Nat RaftWalEntry) (index : Nat) : Option LogEntry :=
  logEntries[index]?.map RaftWalEntry.raftEntry

theorem entriesOf_insert (t : TreeMap Nat RaftWalEntry) (i : Nat) (entry : RaftWalEntry) :
    entriesOf (t.insert i entry) = Function.update (entriesOf t) i (some entry.raftEntry) := by
  funext k
  rw [entriesOf, TreeMap.getElem?_insert, Function.update_apply]
  by_cases h : k = i
  · simp [h]
  · rw [if_neg h, if_neg (by simpa using Ne.symm h)]
    rfl

variable {self}

theorem entriesOf_truncate (index : Nat) :
    entriesOf (self.truncate index).logEntries =
      fun i => if i < index then entriesOf self.logEntries i else none := by
  funext i
  simp only [entriesOf, truncate, TreeMap.getElem?_filter', Option.filter]
  by_cases h : i < index
  · cases self.logEntries[i]? <;> simp [h]
  · cases self.logEntries[i]? <;> simp [h]

theorem entriesOf_commitTo (newCommit : Nat) :
    entriesOf (self.commitTo newCommit).logEntries = entriesOf self.logEntries := by
  unfold commitTo
  dsimp only
  generalize List.range' (self.commitIndex + 1) (newCommit - self.commitIndex) = indices
  generalize self.logEntries = t
  induction indices generalizing t with
  | nil => rfl
  | cons i indices ih =>
    rw [List.foldl_cons, ih]
    funext k
    rw [entriesOf, TreeMap.getElem?_modify, entriesOf]
    by_cases h : i = k
    · rw [if_pos (by simpa using h), Option.map_map, h]
      rfl
    · rw [if_neg (by simpa using h)]

theorem entriesOf_followCommit (leaderCommit : Nat) :
    entriesOf (self.followCommit leaderCommit).logEntries = entriesOf self.logEntries := by
  unfold followCommit
  split
  · dsimp only
    split
    · exact entriesOf_commitTo _
    · rfl
  · rfl

theorem commitIndex_followCommit (leaderCommit : Nat) :
    (self.followCommit leaderCommit).commitIndex =
      if leaderCommit > self.commitIndex then
        max self.commitIndex (min leaderCommit self.lastIndex)
      else self.commitIndex := by
  unfold followCommit
  split
  · dsimp only
    split
    · show min leaderCommit self.lastIndex = _
      omega
    · omega
  · rfl

variable (self) in
theorem lastIndex_spec :
    (∀ i, (entriesOf self.logEntries i).isSome → i ≤ self.lastIndex) ∧
      (self.lastIndex ≠ 0 → (entriesOf self.logEntries self.lastIndex).isSome) := by
  have hmem : ∀ i, (entriesOf self.logEntries i).isSome ↔ i ∈ self.logEntries.keys := by
    intro i
    simp [entriesOf, TreeMap.mem_keys]
  have hsort : self.logEntries.keys.Pairwise (· < ·) :=
    TreeMap.ordered_keys.imp fun h => by simpa [compare_lt_iff_lt] using h
  simp only [hmem, lastIndex]
  cases List.eq_nil_or_concat self.logEntries.keys with
  | inl hnil => simp [hnil]
  | inr hconcat =>
    obtain ⟨keys, last, hkeys⟩ := hconcat
    rw [hkeys, List.concat_eq_append] at hsort ⊢
    have hlt := (List.pairwise_append.mp hsort).2.2
    refine ⟨fun i hi => ?_, by simp⟩
    simp only [List.getLast?_append, List.getLast?_singleton, Option.some_or, Option.getD_some]
    cases List.mem_append.mp hi with
    | inl hi => exact (hlt i hi last List.mem_cons_self).le
    | inr hi => exact (List.mem_singleton.mp hi).le

/-- The entries and the commit index stay. -/
structure KeepsLog (a b : LogReplicationManager Data) : Prop where
  entries : entriesOf b.logEntries = entriesOf a.logEntries
  commit : b.commitIndex = a.commitIndex

theorem keepsLog_createAppendEntriesRequest (overflowChecks : Bool) (followerId : NodeId)
    (currentTerm leaderCommit : Nat) :
    KeepsLog self
      (self.createAppendEntriesRequest overflowChecks followerId currentTerm leaderCommit).1 := by
  have hnext : KeepsLog self (self.nextIndexFor followerId).1 := by
    unfold nextIndexFor
    split <;> exact ⟨rfl, rfl⟩
  unfold createAppendEntriesRequest
  generalize self.nextIndexFor followerId = next at hnext ⊢
  dsimp only
  split
  · exact ⟨hnext.entries, hnext.commit⟩
  · split <;> exact ⟨hnext.entries, hnext.commit⟩

variable (self) in
/-- The index to which `try_advance_commit_index` moves the commit index, if it does. -/
def commitTarget : Option Nat :=
  self.sortedMatchIndices[self.sortedMatchIndices.length / 2]?.filter fun n =>
    decide (n > self.commitIndex) && self.logEntries.contains n

theorem tryAdvanceCommitIndex_eq :
    self.tryAdvanceCommitIndex = (self.commitTarget.map self.commitTo).getD self := by
  unfold tryAdvanceCommitIndex commitTarget
  cases self.sortedMatchIndices[self.sortedMatchIndices.length / 2]? with
  | none => rfl
  | some n =>
    simp only [Option.filter_some]
    split <;> rfl

theorem updateFollower_eq (followerId : NodeId) (f : FollowerState → FollowerState) :
    self.updateFollower followerId f =
      { self with followerState := (self.updateFollower followerId f).followerState } := by
  unfold updateFollower
  split <;> rfl

theorem recordMatch_logs (followerId : NodeId) (lastLogIndex : Nat) :
    (self.recordMatch followerId lastLogIndex).logEntries = self.logEntries ∧
      (self.recordMatch followerId lastLogIndex).commitIndex = self.commitIndex ∧
      (self.recordMatch followerId lastLogIndex).commitTarget =
        commitTarget { self with
          matchIndex := self.matchIndex.insert followerId lastLogIndex } := by
  rw [recordMatch, updateFollower_eq]
  exact ⟨rfl, rfl, rfl⟩

theorem entriesOf_tryAdvanceCommitIndex :
    entriesOf self.tryAdvanceCommitIndex.logEntries = entriesOf self.logEntries := by
  rw [tryAdvanceCommitIndex_eq]
  cases self.commitTarget with
  | none => rfl
  | some n => exact entriesOf_commitTo n

theorem commitIndex_tryAdvanceCommitIndex :
    self.tryAdvanceCommitIndex.commitIndex = self.commitTarget.getD self.commitIndex := by
  rw [tryAdvanceCommitIndex_eq]
  cases self.commitTarget <;> rfl

/-- The entries written over a log. -/
def inserted (f : Nat → Option LogEntry) (entries : List LogEntry) : Nat → Option LogEntry :=
  entries.foldl (fun f entry => Function.update f entry.index (some entry)) f

theorem storeAll_spec (codec : Bincode Data) (entries : List LogEntry) :
    (self.storeAll codec noFailures entries).2 = true ∧
      (self.storeAll codec noFailures entries).1.commitIndex = self.commitIndex ∧
      entriesOf (self.storeAll codec noFailures entries).1.logEntries =
        inserted (entriesOf self.logEntries) entries := by
  induction entries generalizing self with
  | nil => exact ⟨rfl, rfl, rfl⟩
  | cons entry entries ih =>
    obtain ⟨hok, hcom, hes⟩ := @ih (self.store codec noFailures entry).1
    refine ⟨hok, hcom, hes.trans ?_⟩
    show inserted (entriesOf (self.logEntries.insert entry.index _)) entries = _
    rw [entriesOf_insert]
    rfl

end LogReplicationManager

end Kaelix.Cluster.Raft
