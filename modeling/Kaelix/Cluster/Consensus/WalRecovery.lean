import Kaelix.Cluster.Consensus.LogReplication
import Kaelix.Lib.Journal

/-!
# Recovery of the log from the write-ahead log

A request that is accepted cuts the log in memory before its entries are written, but the cut is not
written to the write-ahead log.  So an entry that was cut comes back with the recovery, unless its
index was written again (`recovery_exact_iff`).
-/

namespace Kaelix.Cluster.Raft

open Lib Std

/-- The calls that change the log. -/
inductive LogCall where
  | appendEntry (term : Nat) (command : List UInt8) (timestamp : SerializableInstant)
  | appendEntriesRequest (request : AppendEntriesRequest)

/-- The entries as insertions. -/
def puts (entries : List LogEntry) : List (Change Nat LogEntry) :=
  entries.map fun entry => .put entry.index entry

namespace LogReplicationManager

variable {Data : Type}

section Calls

variable (codec : Bincode Data) (failures : WriteFailures)

/-- What a call makes of the manager. -/
def call (self : LogReplicationManager Data) : LogCall → LogReplicationManager Data
  | .appendEntry term command timestamp =>
    (self.appendEntry codec failures term command timestamp).1
  | .appendEntriesRequest request => (self.handleAppendEntriesRequest codec failures request).1

/-- The entries before the first whose write fails, if the first write has this number. -/
def written : Nat → List LogEntry → List LogEntry
  | _, [] => []
  | n, entry :: entries =>
    if (failures n).isSome then [] else entry :: written (n + 1) entries

/-- What a call does to the map of entries. -/
def changes (self : LogReplicationManager Data) : LogCall → List (Change Nat LogEntry)
  | .appendEntry term command timestamp =>
    puts (written failures self.walStorage.writes
      [.new term (self.lastIndex + 1) command timestamp])
  | .appendEntriesRequest request =>
    if !self.checkLogConsistency request.prevLogIndex request.prevLogTerm then []
    else
      match request.entries with
      | [] => []
      | first :: _ =>
        .cut first.index :: puts (written failures self.walStorage.writes request.entries)

/-- What all calls do to it. -/
def trace (self : LogReplicationManager Data) : List LogCall → List (Change Nat LogEntry)
  | [] => []
  | c :: calls => self.changes failures c ++ (self.call codec failures c).trace calls

end Calls

variable {codec : Bincode Data} {failures : WriteFailures} {self : LogReplicationManager Data}

/-- The changes account for the log, and the readable records are the insertions. -/
structure Tracks (codec : Bincode Data) (m : LogReplicationManager Data)
    (cs : List (Change Nat LogEntry)) : Prop where
  log : entriesOf m.logEntries = contents cs
  records : puts (m.walStorage.records.filterMap codec.deserialize) = cs.filter Change.isPut

namespace Tracks

variable {cs : List (Change Nat LogEntry)}

section

variable (h : self.Tracks codec cs)
include h

private theorem storeAll (entries : List LogEntry) :
    (self.storeAll codec failures entries).1.Tracks codec
      (cs ++ puts (written failures self.walStorage.writes entries)) := by
  induction entries generalizing self cs with
  | nil => simpa [LogReplicationManager.storeAll, written, puts] using h
  | cons entry entries ih =>
    rw [LogReplicationManager.storeAll, store, WalStorage.write, written]
    cases hfail : failures self.walStorage.writes with
    | some e => exact ⟨by simpa [puts] using h.log, by simpa [puts] using h.records⟩
    | none =>
      have hst : Tracks codec
          { self with
            walStorage :=
              { records := self.walStorage.records ++ [codec.serialize entry]
                writes := self.walStorage.writes + 1 }
            logEntries := self.logEntries.insert entry.index
              (.pending entry (self.walStorage.records.length + 1)) }
          (cs ++ [.put entry.index entry]) := by
        constructor
        · rw [entriesOf_insert, contents_concat, h.log]
          rfl
        · rw [List.filterMap_append, List.filter_append, ← h.records]
          simp [puts, codec.roundTrip]
          rfl
      simpa [puts] using ih hst

private theorem truncate (index : Nat) :
    (self.truncate index).Tracks codec (cs ++ [.cut index]) := by
  constructor
  · rw [entriesOf_truncate, contents_concat, h.log]
    rfl
  · rw [List.filter_append]
    exact h.records.trans (List.append_nil _).symm

private theorem followCommit (leaderCommit : Nat) :
    (self.followCommit leaderCommit).Tracks codec cs := by
  refine ⟨(entriesOf_followCommit leaderCommit).trans h.log, ?_⟩
  have hwal : (self.followCommit leaderCommit).walStorage = self.walStorage := by
    unfold LogReplicationManager.followCommit
    split
    · dsimp only
      split <;> rfl
    · rfl
  rw [hwal, h.records]

private theorem call (c : LogCall) :
    (self.call codec failures c).Tracks codec (cs ++ self.changes failures c) := by
  cases c with
  | appendEntry term command timestamp =>
    have hsame : (self.appendEntry codec failures term command timestamp).1 =
        (self.storeAll codec failures [.new term (self.lastIndex + 1) command timestamp]).1 := by
      rw [appendEntry, LogReplicationManager.storeAll]
      split <;> simp_all [LogReplicationManager.storeAll]
    rw [LogReplicationManager.call, hsame]
    exact h.storeAll _
  | appendEntriesRequest request =>
    rw [LogReplicationManager.call, handleAppendEntriesRequest, changes]
    split
    · simpa using h
    · cases hes : request.entries with
      | nil => simpa using h.followCommit request.leaderCommit
      | cons first rest =>
        have hst : ((self.truncate first.index).storeAll codec failures
            (first :: rest)).1.Tracks codec _ := (h.truncate first.index).storeAll _
        rw [List.append_assoc] at hst
        dsimp only
        split
        · exact hst
        · exact hst.followCommit request.leaderCommit

theorem calls (calls : List LogCall) :
    (calls.foldl (LogReplicationManager.call codec failures) self).Tracks codec
      (cs ++ self.trace codec failures calls) := by
  induction calls generalizing self cs with
  | nil => simpa [trace] using h
  | cons c calls ih =>
    rw [trace, ← List.append_assoc]
    exact ih (h.call c)

end

end Tracks

theorem entriesOf_recoverFromWal {wal : WalStorage Data} (hwal : wal.records.length ≤ 10000) :
    entriesOf (recoverFromWal codec wal) =
      contents (puts (wal.records.filterMap codec.deserialize)) := by
  rw [recoverFromWal, WalStorage.read, List.take_of_length_le hwal, contents]
  have hemp : entriesOf ∅ = fun _ => none := by
    funext i
    simp [entriesOf]
  rw [← hemp]
  generalize (∅ : TreeMap Nat RaftWalEntry) = t
  generalize 1 = n
  clear hwal hemp
  induction wal.records generalizing t n with
  | nil => rfl
  | cons data records ih =>
    rw [List.zipIdx_cons, List.foldl_cons, ih]
    cases hdata : codec.deserialize data with
    | none => simp [hdata]
    | some entry =>
      simp only [List.filterMap_cons, hdata, puts, List.map_cons, List.foldl_cons, entriesOf_insert]
      rfl

theorem tracks_new {nodeId : NodeId} {wal : WalStorage Data} {config : RaftConfig}
    (hwal : wal.records.length ≤ 10000) :
    (new codec nodeId wal config).Tracks codec
      (puts (wal.records.filterMap codec.deserialize)) := by
  refine ⟨entriesOf_recoverFromWal hwal, (List.filter_eq_self.mpr ?_).symm⟩
  intro c hc
  obtain ⟨entry, -, rfl⟩ := List.mem_map.mp hc
  rfl

/-- After some calls on a manager over a write-ahead log, recovery gives back the log in memory iff
no index was cut since it was written for the last time. -/
theorem recovery_exact_iff (codec : Bincode Data) (failures : WriteFailures) (nodeId : NodeId)
    (wal : WalStorage Data) (config : RaftConfig) (calls : List LogCall)
    (hrec : Always (call codec failures) (fun m => m.walStorage.records.length ≤ 10000)
      (new codec nodeId wal config) calls) :
    let m := calls.foldl (call codec failures) (new codec nodeId wal config)
    let all := puts (wal.records.filterMap codec.deserialize) ++
      (new codec nodeId wal config).trace codec failures calls
    entriesOf (recoverFromWal codec m.walStorage) = entriesOf m.logEntries ↔
      ∀ index entry, .put index entry ∈ all → Kept all index := by
  intro m all
  have hnew : (new codec nodeId wal config).Tracks codec _ :=
    tracks_new (hrec [] List.nil_prefix)
  have htr : m.Tracks codec all := hnew.calls calls
  rw [entriesOf_recoverFromWal hrec.last, htr.log, htr.records, eq_comm]
  exact contents_eq_replayed_iff all

def threeEntries : List LogCall :=
  [.appendEntry 1 [1] ⟨0⟩, .appendEntry 1 [2] ⟨0⟩, .appendEntry 1 [3] ⟨0⟩]

/-- What a leader of term 2 sends to a manager with the first of the three entries. -/
def secondLeader (entries : List LogEntry) : AppendEntriesRequest :=
  { term := 2, leaderId := ⟨1⟩, prevLogIndex := 1, prevLogTerm := 1, entries, leaderCommit := 0
    requestId := 0 }

/-- The changes that three entries and a request which replaces the last two make. -/
def replaced : List (Change Nat LogEntry) :=
  puts [.new 1 1 [1] ⟨0⟩, .new 1 2 [2] ⟨0⟩, .new 1 3 [3] ⟨0⟩] ++
    .cut 2 :: puts [.new 2 2 [4] ⟨0⟩, .new 2 3 [5] ⟨0⟩]

/-- A request of a new leader replaces the second entry and the third. -/
theorem recovery_exact_overwritten :
    let calls := threeEntries ++
      [.appendEntriesRequest (secondLeader [.new 2 2 [4] ⟨0⟩, .new 2 3 [5] ⟨0⟩])]
    let m := calls.foldl (call .plain noFailures) (new .plain ⟨0⟩ ⟨[], 0⟩ .default)
    entriesOf (recoverFromWal .plain m.walStorage) = entriesOf m.logEntries := by
  refine (recovery_exact_iff .plain noFailures ⟨0⟩ ⟨[], 0⟩ .default _ ?_).mpr ?_
  · simp only [threeEntries, List.cons_append, List.nil_append, always_cons, always_nil]
    decide +kernel
  · show ∀ index entry, .put index entry ∈ replaced → Kept replaced index
    intro index entry hput
    have hindex : index = 1 ∨ index = 2 ∨ index = 3 := by
      simp only [replaced, puts, LogEntry.new, List.map_cons, List.map_nil, List.mem_append,
        List.mem_cons, Change.put.injEq, reduceCtorEq, List.not_mem_nil, or_false, false_or] at hput
      omega
    rcases hindex with rfl | rfl | rfl
    · exact ⟨[], _, _, rfl, ⟨_, rfl⟩, by simp [puts]⟩
    · exact ⟨replaced.take 4, _, _, rfl, ⟨_, rfl⟩, by simp⟩
    · exact ⟨replaced.take 5, _, _, rfl, ⟨_, rfl⟩, by simp⟩

/-- A request of a new leader replaces the second entry and cuts the third, which recovery brings
back. -/
theorem cut_entry_recovered :
    let calls := threeEntries ++ [.appendEntriesRequest (secondLeader [.new 2 2 [4] ⟨0⟩])]
    let m := calls.foldl (call .plain noFailures) (new .plain ⟨0⟩ ⟨[], 0⟩ .default)
    entriesOf m.logEntries 3 = none ∧
      entriesOf (recoverFromWal .plain m.walStorage) 3 = some (.new 1 3 [3] ⟨0⟩) := by
  decide +kernel

/-- At every moment, whatever writes fail, recovery gives back all that is in memory. -/
theorem recovery_keeps_log (codec : Bincode Data) (failures : WriteFailures) (nodeId : NodeId)
    (wal : WalStorage Data) (config : RaftConfig) (calls : List LogCall)
    (hrec : Always (call codec failures) (fun m => m.walStorage.records.length ≤ 10000)
      (new codec nodeId wal config) calls) :
    Always (call codec failures)
      (fun m => ∀ index entry, entriesOf m.logEntries index = some entry →
        entriesOf (recoverFromWal codec m.walStorage) index = some entry)
      (new codec nodeId wal config) calls := by
  intro before hbef index entry hent
  have hnew : (new codec nodeId wal config).Tracks codec _ :=
    tracks_new (hrec [] List.nil_prefix)
  have htr : (before.foldl (call codec failures) _).Tracks codec _ := hnew.calls before
  rw [htr.log] at hent
  rw [entriesOf_recoverFromWal (hrec before hbef), htr.records]
  exact replayed_of_contents hent

/-- The second write fails, so the third call writes the second entry. -/
theorem recovery_keeps_log_threeEntries :
    let failures : WriteFailures := fun n => if n = 1 then some "full" else none
    Always (call .plain failures)
      (fun m => ∀ index entry, entriesOf m.logEntries index = some entry →
        entriesOf (recoverFromWal .plain m.walStorage) index = some entry)
      (new .plain ⟨0⟩ ⟨[], 0⟩ .default) threeEntries := by
  refine recovery_keeps_log .plain _ ⟨0⟩ ⟨[], 0⟩ .default threeEntries ?_
  simp only [threeEntries, always_cons, always_nil]
  decide

end LogReplicationManager

end Kaelix.Cluster.Raft
