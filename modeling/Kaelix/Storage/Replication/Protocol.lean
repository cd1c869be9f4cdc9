import Kaelix.Lib.HashMap
import Kaelix.Storage.Replication.Quorum

/-!
# The replication protocol

`ReplicationProtocol` of `replication/protocol.rs`: the batches that a primary makes of its
entries, and the check by which a replica accepts or rejects a batch.  The entries are those of
`ReplicationManager::write_consistent` of `replication/manager.rs`.

The checksum of an entry is made with CRC-32 and checked with the default hasher of the standard
library.  Both are parameters; of the hasher only the calls are used.  `ReplicationError::Generic`
is given by its message.
-/

namespace Kaelix.Storage.Replication

open Lib

/-- `DefaultHasher` by the calls that hash integers, the length of a vector and bytes. -/
structure Hasher where
  State : Type
  new : State
  writeU64 : State → UInt64 → State
  writeLengthPrefix : State → Nat → State
  write : State → Bytes → State
  finish : State → UInt64

/-- `ReplicationEntry`, without timestamp and metadata, which nothing reads. -/
structure ReplicationEntry where
  offset : UInt64
  term : UInt64
  data : Bytes
  checksum : UInt64
  deriving DecidableEq

inductive CompressionType where
  | none
  | lz4
  | zstd
  | snappy
  deriving DecidableEq

/-- `ReplicationBatch`, without timestamp. -/
structure ReplicationBatch where
  batchId : UInt64
  startOffset : UInt64
  entries : List ReplicationEntry
  totalSize : Nat
  compression : Option CompressionType
  deriving DecidableEq

structure ReplicationBatchResult where
  batchId : UInt64
  processedEntries : Nat
  failedEntries : Nat
  duplicateEntries : Nat
  success : Bool
  errorMessage : Option String
  deriving DecidableEq

/-- What an entry comes to. -/
inductive ProcessResult where
  | processed
  | duplicate
  deriving DecidableEq

/-- `ReplicationProtocol`, with the one setting of its configuration that it reads here. -/
structure ReplicationProtocol where
  enableCompression : Bool
  nextBatchId : UInt64
  activeBatches : HashMap UInt64 ReplicationBatch

/-! ### Integrity -/

def calculateEntryChecksum (hasher : Hasher) (entry : ReplicationEntry) : UInt64 :=
  let state := hasher.writeU64 hasher.new entry.offset
  let state := hasher.writeU64 state entry.term
  let state := hasher.write (hasher.writeLengthPrefix state entry.data.length) entry.data
  hasher.finish state

def verifyChecksums (hasher : Hasher) : List ReplicationEntry → Except String Unit
  | [] => .ok ()
  | entry :: entries =>
    let calculatedChecksum := calculateEntryChecksum hasher entry
    if calculatedChecksum ≠ entry.checksum then
      .error (s!"Checksum mismatch for entry at offset {entry.offset}: " ++
        s!"expected {entry.checksum}, got {calculatedChecksum}")
    else verifyChecksums hasher entries

def verifyOrder : List ReplicationEntry → Except String Unit
  | first :: second :: entries =>
    if first.offset ≥ second.offset then
      .error "Batch entries must be in ascending order by offset"
    else verifyOrder (second :: entries)
  | _ => .ok ()

def verifyBatchIntegrity (hasher : Hasher) (batch : ReplicationBatch) : Except String Unit :=
  if batch.entries.isEmpty then .error "Batch cannot be empty"
  else do
    verifyChecksums hasher batch.entries
    verifyOrder batch.entries

variable {batch : ReplicationBatch}

section

variable {hasher : Hasher}

variable {entries : List ReplicationEntry}

private theorem verifyChecksums_iff :
    verifyChecksums hasher entries = .ok () ↔
      ∀ e ∈ entries, calculateEntryChecksum hasher e = e.checksum := by
  induction entries with
  | nil => exact iff_of_true rfl (by simp)
  | cons entry entries ih =>
    rw [verifyChecksums, List.forall_mem_cons, ← ih]
    by_cases hsum : calculateEntryChecksum hasher entry = entry.checksum
    · rw [if_neg (not_not.mpr hsum)]
      exact (and_iff_right hsum).symm
    · rw [if_pos hsum]
      exact iff_of_false (fun h => by cases h) (fun h => hsum h.1)

private theorem verifyOrder_iff_isChain :
    verifyOrder entries = .ok () ↔
      entries.IsChain (fun a b => a.offset < b.offset) := by
  induction entries with
  | nil => exact iff_of_true rfl .nil
  | cons first entries ih =>
    cases entries with
    | nil => exact iff_of_true rfl (.singleton _)
    | cons second =>
      rw [verifyOrder, List.isChain_cons_cons, ← ih]
      by_cases horder : first.offset < second.offset
      · rw [if_neg (UInt64.not_le.mpr horder)]
        exact (and_iff_right horder).symm
      · rw [if_pos (UInt64.not_lt.mp horder)]
        exact iff_of_false (fun h => by cases h) (fun h => horder h.1)

private theorem verifyOrder_iff :
    verifyOrder entries = .ok () ↔
      entries.Pairwise (fun a b => a.offset < b.offset) := by
  have : IsTrans ReplicationEntry (fun a b => a.offset < b.offset) :=
    ⟨fun _ _ _ => UInt64.lt_trans⟩
  rw [verifyOrder_iff_isChain, List.isChain_iff_pairwise]

theorem verifyBatchIntegrity_iff :
    verifyBatchIntegrity hasher batch = .ok () ↔
      batch.entries ≠ [] ∧
        (∀ e ∈ batch.entries, calculateEntryChecksum hasher e = e.checksum) ∧
        batch.entries.Pairwise (fun a b => a.offset < b.offset) := by
  rw [← verifyChecksums_iff, ← verifyOrder_iff, verifyBatchIntegrity]
  by_cases hemp : batch.entries = []
  · rw [if_pos (List.isEmpty_iff.mpr hemp)]
    exact iff_of_false (fun h => by cases h) (fun h => h.1 hemp)
  · rw [if_neg (mt List.isEmpty_iff.mp hemp), and_iff_right hemp]
    cases verifyChecksums hasher batch.entries with
    | error => exact iff_of_false (fun h => by cases h) (fun h => by cases h.1)
    | ok => exact (and_iff_right rfl).symm

end

/-! ### Batches -/

/-- `process_entry`, which only tells entries apart by their offset. -/
def processEntry (entry : ReplicationEntry) : Except String ProcessResult :=
  if entry.offset % 100 = 0 then .ok .duplicate else .ok .processed

/-- The counts of one batch. -/
structure EntryCounts where
  processed : Nat := 0
  failed : Nat := 0
  duplicate : Nat := 0
  deriving DecidableEq

def EntryCounts.round (counts : EntryCounts) (entry : ReplicationEntry) : EntryCounts :=
  match processEntry entry with
  | .ok .processed => { counts with processed := counts.processed + 1 }
  | .ok .duplicate => { counts with duplicate := counts.duplicate + 1 }
  | .error _ => { counts with failed := counts.failed + 1 }

namespace ReplicationProtocol

def new (enableCompression : Bool) : ReplicationProtocol :=
  { enableCompression, nextBatchId := 1, activeBatches := ∅ }

def createBatch (p : ReplicationProtocol) (entries : List ReplicationEntry) :
    ReplicationBatch × ReplicationProtocol :=
  let batchId := p.nextBatchId
  let totalSize := (entries.map fun e => e.data.length).sum
  let batch :=
    { batchId
      startOffset := (entries.head?.map ReplicationEntry.offset).getD 0
      entries
      totalSize
      compression := if p.enableCompression && totalSize > 1024 then some .lz4 else none }
  (batch,
    { p with
      nextBatchId := batchId + 1
      activeBatches := p.activeBatches.insert batchId batch })

def processBatch (hasher : Hasher) (p : ReplicationProtocol) (batch : ReplicationBatch) :
    ReplicationBatchResult × ReplicationProtocol :=
  match verifyBatchIntegrity hasher batch with
  | .error e =>
    ({ batchId := batch.batchId, processedEntries := 0,
       failedEntries := batch.entries.length, duplicateEntries := 0, success := false,
       errorMessage := some e }, p)
  | .ok _ =>
    let counts := batch.entries.foldl EntryCounts.round {}
    ({ batchId := batch.batchId, processedEntries := counts.processed,
       failedEntries := counts.failed, duplicateEntries := counts.duplicate,
       success := counts.failed == 0, errorMessage := none },
     { p with activeBatches := p.activeBatches.erase batch.batchId })

end ReplicationProtocol

private theorem foldl_round (entries : List ReplicationEntry) (counts : EntryCounts) :
    (entries.foldl EntryCounts.round counts).failed = counts.failed ∧
      (entries.foldl EntryCounts.round counts).processed +
          (entries.foldl EntryCounts.round counts).duplicate =
        counts.processed + counts.duplicate + entries.length := by
  induction entries generalizing counts with
  | nil => exact ⟨rfl, rfl⟩
  | cons entry entries ih =>
    obtain ⟨hfail, hsum⟩ := ih (counts.round entry)
    have hround : (counts.round entry).failed = counts.failed ∧
        (counts.round entry).processed + (counts.round entry).duplicate =
          counts.processed + counts.duplicate + 1 := by
      unfold EntryCounts.round processEntry
      by_cases hoff : entry.offset % 100 = 0
      · rw [if_pos hoff]
        exact ⟨rfl, rfl⟩
      · rw [if_neg hoff]
        exact ⟨rfl, by dsimp only; omega⟩
    rw [List.foldl_cons, List.length_cons]
    omega

/-- The replica accepts the batch: it passes the check, and all entries are processed. -/
structure Accepts (hasher : Hasher) (receiver : ReplicationProtocol)
    (batch : ReplicationBatch) : Prop where
  intact : verifyBatchIntegrity hasher batch = .ok ()
  success : (receiver.processBatch hasher batch).1.success = true
  noError : (receiver.processBatch hasher batch).1.errorMessage = none
  counted : (receiver.processBatch hasher batch).1.processedEntries +
    (receiver.processBatch hasher batch).1.duplicateEntries = batch.entries.length

private theorem accepts_iff {hasher : Hasher} {receiver : ReplicationProtocol} :
    Accepts hasher receiver batch ↔ verifyBatchIntegrity hasher batch = .ok () := by
  refine ⟨Accepts.intact, fun hintact => ?_⟩
  obtain ⟨hfail, hcounted⟩ := foldl_round batch.entries {}
  have hres := congrArg Prod.fst
    (show receiver.processBatch hasher batch = _ by
      rw [ReplicationProtocol.processBatch, hintact])
  refine ⟨hintact, ?_, ?_, ?_⟩
  · rw [hres]
    exact beq_iff_eq.mpr hfail
  · rw [hres]
  · rw [hres]
    exact hcounted.trans (Nat.zero_add _)

/-! ### The batches of a primary -/

/-- What `write_consistent` replicates: the sequence from the log, the term and the data. -/
structure ConsistentWrite where
  sequence : UInt64
  term : UInt64
  data : Bytes
  deriving DecidableEq

def ConsistentWrite.entry (crc32 : Bytes → UInt32) (w : ConsistentWrite) : ReplicationEntry :=
  { offset := w.sequence, term := w.term, data := w.data, checksum := (crc32 w.data).toUInt64 }

/-- The batch of writes with ascending sequences is accepted exactly when, for each of
them, the hasher gives on offset, term and data what CRC-32 gives on the data alone. -/
theorem batch_accepted_iff (crc32 : Bytes → UInt32) (hasher : Hasher)
    (sender receiver : ReplicationProtocol) (writes : List ConsistentWrite)
    (hne : writes ≠ []) (hascending : writes.Pairwise fun a b => a.sequence < b.sequence) :
    Accepts hasher receiver (sender.createBatch (writes.map (·.entry crc32))).1 ↔
      ∀ w ∈ writes, calculateEntryChecksum hasher (w.entry crc32) = (crc32 w.data).toUInt64 := by
  have hes : (sender.createBatch (writes.map (·.entry crc32))).1.entries =
      writes.map (·.entry crc32) := rfl
  have horder : (writes.map (·.entry crc32)).Pairwise (fun a b => a.offset < b.offset) :=
    List.pairwise_map.mpr hascending
  rw [accepts_iff, verifyBatchIntegrity_iff, hes, List.forall_mem_map,
    and_iff_left horder, and_iff_right (mt List.map_eq_nil_iff.mp hne)]
  rfl

def constantHasher (result : UInt64) : Hasher where
  State := Unit
  new := ()
  writeU64 _ _ := ()
  writeLengthPrefix _ _ := ()
  write _ _ := ()
  finish _ := result

theorem batch_accepted_sample :
    Accepts (constantHasher 7) (.new true)
        ((ReplicationProtocol.new true).createBatch
          ([⟨1, 1, [116]⟩, ⟨2, 1, []⟩].map (ConsistentWrite.entry fun _ => 7))).1 ↔
      ∀ w ∈ [ConsistentWrite.mk 1 1 [116], ⟨2, 1, []⟩],
        calculateEntryChecksum (constantHasher 7) (w.entry fun _ => 7) =
          ((fun _ => 7 : Bytes → UInt32) w.data).toUInt64 :=
  batch_accepted_iff (fun _ => 7) (constantHasher 7) (.new true) (.new true)
    [⟨1, 1, [116]⟩, ⟨2, 1, []⟩] (by decide) (by decide)

/-- A hasher that is not CRC-32 rejects the entry. -/
theorem batch_not_accepted :
    ¬ ∀ (crc32 : Bytes → UInt32) (hasher : Hasher) (sender receiver : ReplicationProtocol)
        (writes : List ConsistentWrite), writes ≠ [] →
      writes.Pairwise (fun a b => a.sequence < b.sequence) →
      Accepts hasher receiver (sender.createBatch (writes.map (·.entry crc32))).1 := by
  intro haccepted
  have hacc := haccepted (fun _ => 0) (constantHasher 1) (.new true) (.new true)
    [⟨1, 1, [116]⟩] (by decide) (by decide)
  cases hacc.intact

end Kaelix.Storage.Replication
