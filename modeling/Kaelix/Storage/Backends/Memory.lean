import Kaelix.Lib.HashMap
import Kaelix.Lib.History
import Kaelix.Lib.OrderedMap
import Mathlib.Algebra.BigOperators.Group.List.Basic
import Mathlib.Algebra.GroupWithZero.Nat

/-!
# The in-memory backend

`MemoryBackend` of `backends/memory.rs`: a map from offsets to messages, an index from sequence
numbers to offsets, the next offset and two statistics.

What it is for is a log: the list of the messages accepted since the last `clear`.  Rejected
writes and reads leave both alone.
-/

namespace Kaelix.Storage.Backends

open Lib

abbrev Bytes := List UInt8

/-- What a call can fail with. -/
inductive StorageError where
  | messageNotFound (messageId : String)
  | sequenceNotFound (sequence : Nat)
  | invalidOffset (offset segmentSize : Nat)
  | capacityExceeded (used capacity : Nat)
  deriving DecidableEq

abbrev StorageResult := Except StorageError

/-- A stored message. -/
structure MessageEntry where
  sequence : Nat
  offset : Nat
  data : Bytes
  timestamp : Nat
  deriving DecidableEq

structure MessageRange where
  startOffset : Nat
  endOffset : Nat
  messages : List MessageEntry
  totalSize : Nat
  deriving DecidableEq

structure MemoryBackendConfig where
  maxMessages : Option Nat
  maxMemory : Option Nat
  deriving DecidableEq

def MemoryBackendConfig.default : MemoryBackendConfig :=
  { maxMessages := some 1000000, maxMemory := some (1024 * 1024 * 1024) }

/-- The messages, the index and the counters. -/
structure MemoryBackend where
  messages : Std.TreeMap Nat MessageEntry
  sequenceIndex : HashMap Nat Nat
  writeOffset : Nat
  messageCount : Nat
  totalBytes : Nat
  config : MemoryBackendConfig

/-- A message to be written, with the clock reading that becomes its timestamp. -/
structure Message where
  sequence : Nat
  data : Bytes
  timestamp : Nat
  deriving DecidableEq

def Message.entry (m : Message) (offset : Nat) : MessageEntry :=
  { sequence := m.sequence, offset := offset, data := m.data, timestamp := m.timestamp }

def payload (messages : List Message) : Nat := (messages.map fun m => m.data.length).sum

namespace MemoryBackend

def withConfig (config : MemoryBackendConfig) : MemoryBackend :=
  { messages := ∅
    sequenceIndex := ∅
    writeOffset := 0
    messageCount := 0
    totalBytes := 0
    config := config }

def new : MemoryBackend := withConfig .default

variable (self : MemoryBackend)

def clear : MemoryBackend :=
  { self with
    messages := ∅
    sequenceIndex := ∅
    writeOffset := 0
    messageCount := 0
    totalBytes := 0 }

def checkLimit (limit : Option Nat) (exceeded : Nat → Nat → Bool) (used : Nat) :
    StorageResult Unit :=
  match limit with
  | some capacity =>
    if exceeded used capacity then .error (.capacityExceeded used capacity) else .ok ()
  | none => .ok ()

/-- The limits before a single write. -/
def checkLimits : StorageResult Unit := do
  checkLimit self.config.maxMessages (· ≥ ·) self.messageCount
  checkLimit self.config.maxMemory (· ≥ ·) self.totalBytes

def checkBatchLimits (messages : List Message) : StorageResult Unit := do
  checkLimit self.config.maxMessages (· > ·) (self.messageCount + messages.length)
  checkLimit self.config.maxMemory (· > ·) (self.totalBytes + payload messages)

def insertEntry (entry : MessageEntry) : MemoryBackend :=
  { self with
    messages := self.messages.insert entry.offset entry
    sequenceIndex := self.sequenceIndex.insert entry.sequence entry.offset }

/-- A message at the next offset. -/
def writeMessage (m : Message) : MemoryBackend × StorageResult Nat :=
  match self.checkLimits with
  | .error e => (self, .error e)
  | .ok () =>
    let offset := self.writeOffset
    let self := { self with writeOffset := self.writeOffset + 1 }
    let self := self.insertEntry (m.entry offset)
    ({ self with
        messageCount := self.messageCount + 1
        totalBytes := self.totalBytes + m.data.length }, .ok offset)

/-- The entries that `write_batch` prepares, at the offsets from `startOffset` on. -/
def batchEntries (startOffset : Nat) (messages : List Message) : List MessageEntry :=
  messages.mapIdx fun i m => m.entry (startOffset + i)

/-- All messages, or none. -/
def writeBatch (messages : List Message) : MemoryBackend × StorageResult (List Nat) :=
  if messages.isEmpty then (self, .ok [])
  else
    match self.checkBatchLimits messages with
    | .error e => (self, .error e)
    | .ok () =>
      let startOffset := self.writeOffset
      let self := { self with writeOffset := self.writeOffset + messages.length }
      let messageEntries := batchEntries startOffset messages
      let offsets := messageEntries.map (·.offset)
      let self := messageEntries.foldl insertEntry self
      ({ self with
          messageCount := self.messageCount + offsets.length
          totalBytes := self.totalBytes + payload messages }, .ok offsets)

def readMessage (offset : Nat) : StorageResult MessageEntry :=
  match self.messages[offset]? with
  | some message => .ok message
  | none => .error (.messageNotFound s!"offset-{offset}")

def readMessageBySequence (sequence : Nat) : StorageResult MessageEntry :=
  match self.sequenceIndex.lookup sequence with
  | none => .error (.sequenceNotFound sequence)
  | some offset =>
    match self.messages[offset]? with
    | some message => .ok message
    | none => .error (.messageNotFound s!"sequence-{sequence}")

def readRange (start stop : Nat) : StorageResult MessageRange :=
  if start > stop then .error (.invalidOffset start stop)
  else
    let rangeMessages := rangeValues self.messages start stop
    .ok
      { startOffset := start
        endOffset := stop
        messages := rangeMessages
        totalSize := (rangeMessages.map fun m => m.data.length).sum }

def getLatestOffset : Option Nat :=
  if self.writeOffset > 0 then some (self.writeOffset - 1) else none

def getMessageCount : Nat := self.messageCount

def getStorageSize : Nat := self.totalBytes

end MemoryBackend

/-! ## The log -/

def entries (accepted : List Message) : List MessageEntry := accepted.mapIdx fun i m => m.entry i

def lastWith (log : List MessageEntry) (sequence : Nat) : Option MessageEntry :=
  log.reverse.find? fun e => e.sequence == sequence

/-- The backend's calls. -/
inductive MemoryOp where
  | writeMessage (m : Message)
  | writeBatch (messages : List Message)
  | clear
  | readMessage (offset : Nat)
  | readMessageBySequence (sequence : Nat)
  | readRange (start stop : Nat)
  deriving DecidableEq

/-- One call on a backend that has accepted some messages since the last `clear`.  A
message is accepted if its write returns `Ok`. -/
def logStep (s : MemoryBackend × List Message) : MemoryOp → MemoryBackend × List Message
  | .writeMessage m =>
    let (backend, result) := s.1.writeMessage m
    (backend, if result.isOk then s.2 ++ [m] else s.2)
  | .writeBatch messages =>
    let (backend, result) := s.1.writeBatch messages
    (backend, if result.isOk then s.2 ++ messages else s.2)
  | .clear => (s.1.clear, [])
  | .readMessage _ => s
  | .readMessageBySequence _ => s
  | .readRange _ _ => s

/-- The backend holds the accepted messages: the map at their positions, the index the
last position of each sequence number, the counters their number and bytes. -/
structure HoldsLog (backend : MemoryBackend) (accepted : List Message) : Prop where
  messages : HoldsList backend.messages (entries accepted)
  index : ∀ sequence, backend.sequenceIndex.lookup sequence =
    (lastWith (entries accepted) sequence).map (·.offset)
  writeOffset : backend.writeOffset = accepted.length
  messageCount : backend.messageCount = accepted.length
  totalBytes : backend.totalBytes = payload accepted

/-- All reads answer by the accepted messages. -/
structure ReadsLog (backend : MemoryBackend) (accepted : List Message) : Prop where
  count : backend.getMessageCount = accepted.length
  size : backend.getStorageSize = payload accepted
  latest : backend.getLatestOffset =
    if accepted.length = 0 then none else some (accepted.length - 1)
  message : ∀ offset, backend.readMessage offset =
    match (entries accepted)[offset]? with
    | some e => .ok e
    | none => .error (.messageNotFound s!"offset-{offset}")
  sequence : ∀ sequence, backend.readMessageBySequence sequence =
    match lastWith (entries accepted) sequence with
    | some e => .ok e
    | none => .error (.sequenceNotFound sequence)
  range : ∀ start stop, start ≤ stop → ∃ r, backend.readRange start stop = .ok r ∧
    r.startOffset = start ∧ r.endOffset = stop ∧
    r.messages = (entries accepted).filter
      (fun e => decide (start ≤ e.offset) && decide (e.offset ≤ stop)) ∧
    r.totalSize = (r.messages.map fun e => e.data.length).sum
  invalidRange : ∀ start stop, stop < start →
    backend.readRange start stop = .error (.invalidOffset start stop)

/-! ## Entries and their offsets -/

theorem length_entries (accepted : List Message) : (entries accepted).length = accepted.length :=
  List.length_mapIdx

theorem entries_append (accepted messages : List Message) :
    entries (accepted ++ messages) =
      entries accepted ++ messages.mapIdx fun i m => m.entry (accepted.length + i) := by
  rw [entries, List.mapIdx_append, entries]
  simp only [Nat.add_comm]

variable {i : Nat} {e : MessageEntry}

theorem offset_entries {accepted : List Message} (h : (entries accepted)[i]? = some e) :
    e.offset = i := by
  rw [entries, List.getElem?_mapIdx] at h
  obtain ⟨m, -, rfl⟩ := Option.map_eq_some_iff.mp h
  rfl

theorem payload_append (xs ys : List Message) : payload (xs ++ ys) = payload xs + payload ys := by
  rw [payload, List.map_append, List.sum_append, payload, payload]

private theorem lastWith_append_singleton (log : List MessageEntry) (e : MessageEntry)
    (sequence : Nat) :
    lastWith (log ++ [e]) sequence =
      if e.sequence = sequence then some e else lastWith log sequence := by
  rw [lastWith, List.reverse_append, List.reverse_singleton, List.singleton_append,
    List.find?_cons]
  by_cases h : e.sequence = sequence
  · rw [beq_iff_eq.mpr h, if_pos h]
  · rw [beq_false_of_ne h, if_neg h, lastWith]

/-! ## Writes -/

/-- The map and the index hold these entries. -/
structure Stores (backend : MemoryBackend) (log : List MessageEntry) : Prop where
  messages : HoldsList backend.messages log
  index : ∀ sequence, backend.sequenceIndex.lookup sequence =
    (lastWith log sequence).map (·.offset)

variable {backend : MemoryBackend} {log : List MessageEntry}

theorem Stores.insertEntry (h : Stores backend log) {entry : MessageEntry}
    (hoff : entry.offset = log.length) :
    Stores (backend.insertEntry entry) (log ++ [entry]) := by
  refine ⟨?_, fun sequence => ?_⟩
  · rw [MemoryBackend.insertEntry, hoff]
    exact h.messages.append entry
  · rw [MemoryBackend.insertEntry, HashMap.lookup_insert_eq, lastWith_append_singleton,
      h.index sequence]
    by_cases heq : entry.sequence = sequence
    · rw [if_pos heq, if_pos heq.symm]
      rfl
    · rw [if_neg heq, if_neg (Ne.symm heq)]

theorem Stores.foldl_insertEntry (h : Stores backend log) {batch : List MessageEntry}
    (hoff : ∀ i e, batch[i]? = some e → e.offset = log.length + i) :
    Stores (batch.foldl MemoryBackend.insertEntry backend) (log ++ batch) := by
  induction batch generalizing backend log with
  | nil => simpa using h
  | cons e batch ih =>
    have hfirst := h.insertEntry (hoff 0 e rfl)
    have hrest := ih hfirst fun i e' hi => by
      rw [hoff (i + 1) e' hi, List.length_append, List.length_singleton]
      omega
    rw [List.append_assoc] at hrest
    exact hrest

theorem counters_foldl_insertEntry (batch : List MessageEntry) (backend : MemoryBackend) :
    (batch.foldl MemoryBackend.insertEntry backend).writeOffset = backend.writeOffset ∧
      (batch.foldl MemoryBackend.insertEntry backend).messageCount = backend.messageCount ∧
      (batch.foldl MemoryBackend.insertEntry backend).totalBytes = backend.totalBytes := by
  induction batch generalizing backend with
  | nil => exact ⟨rfl, rfl, rfl⟩
  | cons e batch ih => exact ih (backend.insertEntry e)

variable {backend : MemoryBackend} {accepted : List Message}

theorem HoldsLog.stores (h : HoldsLog backend accepted) : Stores backend (entries accepted) :=
  ⟨h.messages, h.index⟩

theorem holdsLog_withConfig (config : MemoryBackendConfig) : HoldsLog (.withConfig config) [] :=
  ⟨holdsList_empty, fun _ => rfl, rfl, rfl, rfl⟩

private theorem holdsLog_clear (backend : MemoryBackend) : HoldsLog backend.clear [] :=
  ⟨holdsList_empty, fun _ => rfl, rfl, rfl, rfl⟩

theorem HoldsLog.writeMessage (h : HoldsLog backend accepted) {m : Message}
    (hlim : backend.checkLimits = .ok ()) :
    (backend.writeMessage m).2 = .ok accepted.length ∧
      HoldsLog (backend.writeMessage m).1 (accepted ++ [m]) := by
  rw [MemoryBackend.writeMessage, hlim]
  dsimp only
  refine ⟨by rw [h.writeOffset], ?_⟩
  have hoff : (m.entry backend.writeOffset).offset = (entries accepted).length := by
    rw [length_entries]
    exact h.writeOffset
  have hsts : Stores (backend.insertEntry (m.entry backend.writeOffset))
      (entries (accepted ++ [m])) := by
    rw [entries_append]
    have := h.stores.insertEntry hoff
    rw [h.writeOffset] at this ⊢
    exact this
  refine ⟨hsts.messages, hsts.index, ?_, ?_, ?_⟩
  · rw [List.length_append, ← h.writeOffset]
    rfl
  · rw [List.length_append, ← h.messageCount]
    rfl
  · rw [payload_append, ← h.totalBytes]
    rfl

variable {messages : List Message}

private theorem offset_batchEntries {start : Nat}
    (h : (MemoryBackend.batchEntries start messages)[i]? = some e) : e.offset = start + i := by
  rw [MemoryBackend.batchEntries, List.getElem?_mapIdx] at h
  obtain ⟨m, -, rfl⟩ := Option.map_eq_some_iff.mp h
  rfl

theorem HoldsLog.writeBatch (h : HoldsLog backend accepted) (hne : messages.isEmpty = false)
    (hlim : backend.checkBatchLimits messages = .ok ()) :
    (∃ offsets, (backend.writeBatch messages).2 = .ok offsets) ∧
      HoldsLog (backend.writeBatch messages).1 (accepted ++ messages) := by
  have hsts : Stores ((MemoryBackend.batchEntries backend.writeOffset messages).foldl
      MemoryBackend.insertEntry
        { backend with writeOffset := backend.writeOffset + messages.length })
      (entries (accepted ++ messages)) := by
    have hstart : Stores
        { backend with writeOffset := backend.writeOffset + messages.length }
        (entries accepted) := ⟨h.messages, h.index⟩
    rw [entries_append, ← h.writeOffset]
    refine hstart.foldl_insertEntry fun i e hi => ?_
    rw [offset_batchEntries hi, length_entries, h.writeOffset]
  obtain ⟨hoff, hcnt, hbytes⟩ := counters_foldl_insertEntry
    (MemoryBackend.batchEntries backend.writeOffset messages)
    { backend with writeOffset := backend.writeOffset + messages.length }
  rw [MemoryBackend.writeBatch, hne, if_neg (by decide), hlim]
  refine ⟨⟨_, rfl⟩, hsts.messages, hsts.index, ?_, ?_, ?_⟩
  · dsimp only
    rw [hoff, List.length_append, ← h.writeOffset]
  · dsimp only
    rw [hcnt, List.length_append, ← h.messageCount, List.length_map,
      MemoryBackend.batchEntries, List.length_mapIdx]
  · dsimp only
    rw [hbytes, payload_append, ← h.totalBytes]

theorem HoldsLog.step (h : HoldsLog backend accepted) (op : MemoryOp) :
    HoldsLog (logStep (backend, accepted) op).1 (logStep (backend, accepted) op).2 := by
  cases op with
  | writeMessage m =>
    cases hlim : backend.checkLimits with
    | error =>
      rw [logStep, MemoryBackend.writeMessage, hlim]
      exact h
    | ok =>
      obtain ⟨hok, hnext⟩ := h.writeMessage (m := m) hlim
      rw [logStep]
      dsimp only
      rw [hok]
      exact hnext
  | writeBatch messages =>
    cases hemp : messages.isEmpty with
    | true =>
      rw [List.isEmpty_iff.mp hemp]
      simpa [logStep, MemoryBackend.writeBatch] using h
    | false =>
      cases hlim : backend.checkBatchLimits messages with
      | error =>
        rw [logStep, MemoryBackend.writeBatch, hemp, if_neg (by decide), hlim]
        exact h
      | ok =>
        obtain ⟨⟨offsets, hok⟩, hnext⟩ := h.writeBatch hemp hlim
        rw [logStep]
        dsimp only
        rw [hok]
        exact hnext
  | clear => exact holdsLog_clear backend
  | _ => exact h

/-! ## Reads -/

private theorem offset_of_mem_entries (h : e ∈ entries accepted) :
    (entries accepted)[e.offset]? = some e := by
  obtain ⟨i, hi⟩ := List.mem_iff_getElem?.mp h
  rw [offset_entries hi]
  exact hi

section

variable (h : HoldsLog backend accepted)
include h

theorem HoldsLog.rangeValues_eq (start stop : Nat) :
    rangeValues backend.messages start stop = (entries accepted).filter
      fun e => decide (start ≤ e.offset) && decide (e.offset ≤ stop) := by
  have hpairs : (entries accepted).mapIdx (fun i e => (i, e)) =
      (entries accepted).map fun e => (e.offset, e) := by
    apply List.ext_getElem
    · rw [List.length_mapIdx, List.length_map]
    · intro i hi hi'
      rw [List.getElem_mapIdx, List.getElem_map]
      rw [List.length_map] at hi'
      rw [offset_entries (List.getElem?_eq_getElem hi')]
  rw [rangeValues, h.messages.toList_eq, hpairs, List.filter_map, List.map_map]
  exact List.map_id _

theorem HoldsLog.readMessageBySequence (sequence : Nat) :
    backend.readMessageBySequence sequence =
      match lastWith (entries accepted) sequence with
      | some e => .ok e
      | none => .error (.sequenceNotFound sequence) := by
  rw [MemoryBackend.readMessageBySequence, h.index sequence]
  cases hlast : lastWith (entries accepted) sequence with
  | none => rfl
  | some e =>
    have hmem : e ∈ entries accepted := List.mem_reverse.mp (List.mem_of_find?_eq_some hlast)
    rw [Option.map_some]
    dsimp only
    rw [h.messages e.offset, offset_of_mem_entries hmem]

theorem HoldsLog.readsLog : ReadsLog backend accepted where
  count := h.messageCount
  size := h.totalBytes
  latest := by
    rw [MemoryBackend.getLatestOffset, h.writeOffset]
    by_cases h0 : accepted.length = 0
    · rw [if_neg (by omega), if_pos h0]
    · rw [if_pos (by omega), if_neg h0]
  message offset := by rw [MemoryBackend.readMessage, h.messages offset]
  sequence := h.readMessageBySequence
  range start stop hle := by
    refine ⟨_, if_neg (Nat.not_lt.mpr hle), rfl, rfl, ?_, rfl⟩
    exact h.rangeValues_eq start stop
  invalidRange start stop hlt := if_pos hlt

end

/-- Over every history the backend is the log of the messages accepted since the last
`clear`, and every read is a read of that log. -/
theorem memoryBackend_refines_log (config : MemoryBackendConfig) (ops : List MemoryOp) :
    HoldsLog (ops.foldl logStep (.withConfig config, [])).1
        (ops.foldl logStep (.withConfig config, [])).2 ∧
      ReadsLog (ops.foldl logStep (.withConfig config, [])).1
        (ops.foldl logStep (.withConfig config, [])).2 := by
  have hholds : HoldsLog (ops.foldl logStep (.withConfig config, [])).1
      (ops.foldl logStep (.withConfig config, [])).2 :=
    (always_of_step (P := fun s : MemoryBackend × List Message => HoldsLog s.1 s.2)
      (holdsLog_withConfig config) fun _ op h => h.step op).last
  exact ⟨hholds, hholds.readsLog⟩

end Kaelix.Storage.Backends
