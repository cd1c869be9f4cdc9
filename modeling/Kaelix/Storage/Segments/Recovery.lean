import Kaelix.Storage.Segments.Appends
import Kaelix.Lib.Loop

/-!
# Recovery of a segment

`StorageSegment::open_existing` of `segments/segment.rs` with its scan of the file: entries are
read one after the other, and behind bytes that are no entry the scan looks for the next offset at
which one can be read.

Neither loop is bounded by the source, so both are run for a number of rounds, `fuel`; `none`
means that the rounds did not suffice.
-/

namespace Kaelix.Storage.Segments

open Lib Lib.BigEndian

/-- `StorageSegment::read_entry_at_offset_during_recovery`: the entry and its length. -/
def readEntryAtOffsetDuringRecovery (lz4 : Lz4) (file : Bytes) (offset : Nat) :
    Outcome (StorageEntry × Nat) := do
  let (data, totalSize) ← readStored lz4 (readExact file) offset
  let entry ← StorageEntry.deserialize data
  match entry.validate with
  | .ok _ => .ok (entry, totalSize)
  | .error _ => ioError s!"Entry checksum validation failed at offset {offset}"

/-- The windows of the scan buffer: the first offset at which an entry can be read. -/
def firstReadable (lz4 : Lz4) (file : Bytes) : List Nat → Outcome (Option Nat)
  | [] => .ok none
  | offset :: offsets =>
    match readEntryAtOffsetDuringRecovery lz4 file offset with
    | .ok _ => .ok (some offset)
    | .error (.panic message) => .error (.panic message)
    | .error (.error _) => firstReadable lz4 file offsets

def scanBufferSize : Nat := 4096

def maxScanDistance : Nat := 1024 * 1024

/-- One round of `find_next_valid_entry`.  The loop goes on at the last three bytes of the
buffer; with fewer than three, `remaining - 3` panics or wraps around. -/
def scanRound (lz4 : Lz4) (overflowChecks : Bool) (file : Bytes) (scanEnd : Nat)
    (currentOffset : Nat) : Nat ⊕ Outcome (Option Nat) :=
  if currentOffset < scanEnd then
    let remaining := min scanBufferSize (scanEnd - currentOffset)
    match readExact file currentOffset remaining "scan buffer" with
    | .error _ => .inr (.ok none)
    | .ok buffer =>
      match firstReadable lz4 file (List.range' currentOffset (buffer.length - 3)) with
      | .ok (some offset) => .inr (.ok (some offset))
      | .error failure => .inr (.error failure)
      | .ok none =>
        if 3 ≤ remaining then .inl (currentOffset + (remaining - 3))
        else if overflowChecks then
          .inr (.error (.panic "attempt to subtract with overflow"))
        else .inl ((currentOffset + (2 ^ 64 + remaining - 3)) % 2 ^ 64)
  else .inr (.ok none)

def findNextValidEntry (lz4 : Lz4) (overflowChecks : Bool) (fuel : Nat) (file : Bytes)
    (startOffset fileSize : Nat) : Option (Outcome (Option Nat)) :=
  let scanEnd := min (startOffset + maxScanDistance) fileSize
  Loop.iterate (scanRound lz4 overflowChecks file scanEnd) fuel (startOffset + 1)

/-- The variables of the loop of `recover_segment`. -/
structure Recovery where
  segment : StorageSegment
  info : RecoveryInfo
  currentOffset : Nat

namespace Recovery

variable (r : Recovery)

def accept (entry : StorageEntry) (entrySize : Nat) : Recovery :=
  let s := r.segment.record
    { sequence := entry.sequence, offset := r.currentOffset, size := .ofNat entrySize,
      timestamp := entry.metadata.timestamp }
  { segment := { s with entryCount := s.entryCount + 1 }
    info := { r.info with
      entriesRecovered := r.info.entriesRecovered + 1
      bytesRecovered := r.info.bytesRecovered + entrySize }
    currentOffset := r.currentOffset + entrySize }

def skip (nextOffset : Nat) : Recovery :=
  { r with
    info := { r.info with
      corruptedEntries := r.info.corruptedEntries + 1
      bytesCorrupted := r.info.bytesCorrupted + (nextOffset - r.currentOffset) }
    currentOffset := nextOffset }

def abandon (fileSize : Nat) : Recovery :=
  { r with
    info := { r.info with
      bytesCorrupted := r.info.bytesCorrupted + (fileSize - r.currentOffset) } }

/-- One round of the loop of `recover_segment`; a result of `none` stands for a scan that
has not ended. -/
def round (lz4 : Lz4) (overflowChecks : Bool) (fuel : Nat) (r : Recovery) :
    Recovery ⊕ Option (Outcome Recovery) :=
  let file := r.segment.file
  let fileSize := r.segment.fileSize
  if r.currentOffset < fileSize then
    match readEntryAtOffsetDuringRecovery lz4 file r.currentOffset with
    | .ok (entry, entrySize) => .inl (r.accept entry entrySize)
    | .error (.panic message) => .inr (some (.error (.panic message)))
    | .error (.error _) =>
      match findNextValidEntry lz4 overflowChecks fuel file r.currentOffset fileSize with
      | none => .inr none
      | some (.error failure) => .inr (some (.error failure))
      | some (.ok (some nextOffset)) => .inl (r.skip nextOffset)
      | some (.ok none) => .inr (some (.ok (r.abandon fileSize)))
  else .inr (some (.ok r))

end Recovery

namespace StorageSegment

def recoverSegment (lz4 : Lz4) (overflowChecks : Bool) (fuel : Nat) (s : StorageSegment) :
    Option (Outcome StorageSegment) :=
  (Loop.iterate (Recovery.round lz4 overflowChecks fuel) fuel
      { segment := s, info := {}, currentOffset := 0 }).join.map
    fun outcome => outcome.map fun r => { r.segment with recoveryInfo := r.info }

def unrecovered (id : Nat) (file : Bytes) (enableCompression : Bool) : StorageSegment :=
  { createNew id file enableCompression with
    writer := none
    fileSize := file.length
    isSealed := true }

def openExisting (lz4 : Lz4) (overflowChecks : Bool) (fuel : Nat) (mapped : Bool)
    (id : Nat) (file : Bytes) (enableCompression : Bool) : Option (Outcome StorageSegment) :=
  let segment := unrecovered id file enableCompression
  let recovered :=
    if file.length > 0 then segment.recoverSegment lz4 overflowChecks fuel
    else some (.ok segment)
  recovered.map fun outcome => outcome.map fun s =>
    { s with reader := some (.new mapped file) }

end StorageSegment

/-! ### Recovery of a compressed segment -/

/-- An entry that LZ4 gives back and that passes the integrity check. -/
structure Storable (lz4 : Lz4) (e : StorageEntry) : Prop where
  inverse : lz4.decompress (lz4.compress e.serialize) = .ok e.serialize
  pos : 0 < (lz4.compress e.serialize).length
  lt : (lz4.compress e.serialize).length < 2 ^ 32
  valid : e.validate = .ok ()

namespace Storable

variable {lz4 : Lz4} {e : StorageEntry}

variable (h : Storable lz4 e)
include h

theorem readStored_eq {read : Nat → Nat → String → Outcome Bytes}
    {before after : Bytes} (hread : Serves read (before ++ (diskBytes lz4 true e ++ after))) :
    readStored lz4 read before.length = .ok (e.serialize, (diskBytes lz4 true e).length) :=
  readStored_compressed hread h.inverse h.pos h.lt

theorem deserialize_eq : StorageEntry.deserialize e.serialize = .ok e.stored := by
  have hpay := StorageEntry.payload_le_of_validate h.valid
  exact StorageEntry.deserialize_serialize e (by omega)

private theorem readDuringRecovery (before after : Bytes) :
    readEntryAtOffsetDuringRecovery lz4 (before ++ (diskBytes lz4 true e ++ after))
      before.length = .ok (e.stored, (diskBytes lz4 true e).length) := by
  have hst := h.readStored_eq (serves_readExact (before ++ (diskBytes lz4 true e ++ after)))
  have hvalid := e.validate_stored.trans h.valid
  simp only [readEntryAtOffsetDuringRecovery, hst, h.deserialize_eq, hvalid, bind,
    Except.bind]

end Storable

/-- The loop of `recover_segment` after it has read these entries of the file. -/
structure Recovered (lz4 : Lz4) (file : Bytes) (entries : List StorageEntry)
    (r : Recovery) : Prop where
  contents : r.segment.file = file
  fileSize : r.segment.fileSize = file.length
  offset : r.currentOffset = (diskImage lz4 true entries).length
  catalog : Catalogs r.segment (placements lz4 true 0 entries)
  count : r.segment.entryCount = entries.length
  intact : r.info.corruptedEntries = 0 ∧ r.info.bytesCorrupted = 0

variable {entries : List StorageEntry} {e : StorageEntry}

namespace Recovered

variable {lz4 : Lz4} {file : Bytes} {r : Recovery}

private theorem accept (h : Recovered lz4 file entries r) (e : StorageEntry) :
    Recovered lz4 file (entries ++ [e]) (r.accept e.stored (diskBytes lz4 true e).length) where
  contents := h.contents
  fileSize := h.fileSize
  offset := by
    show r.currentOffset + _ = _
    rw [h.offset, diskImage_append, List.length_append, diskImage_cons, List.length_append]
    rfl
  catalog := by
    have hcat := h.catalog.record
      { sequence := e.sequence, offset := r.currentOffset,
        size := .ofNat (diskBytes lz4 true e).length, timestamp := e.metadata.timestamp }
    rw [placements_append, Nat.zero_add, ← h.offset]
    exact ⟨hcat.lookup, hcat.first, hcat.last⟩
  count := by
    show r.segment.entryCount + 1 = _
    rw [h.count, List.length_append, List.length_singleton]
  intact := h.intact

variable {rest : List StorageEntry}

private theorem round_eq (h : Recovered lz4 (diskImage lz4 true (entries ++ e :: rest)) entries r)
    (he : Storable lz4 e) (overflowChecks : Bool) (fuel : Nat) :
    r.round lz4 overflowChecks fuel = .inl (r.accept e.stored (diskBytes lz4 true e).length) := by
  have himage : diskImage lz4 true (entries ++ e :: rest) =
      diskImage lz4 true entries ++ (diskBytes lz4 true e ++ diskImage lz4 true rest) := by
    rw [diskImage_append, diskImage_cons]
  have hread : readEntryAtOffsetDuringRecovery lz4 r.segment.file r.currentOffset =
      .ok (e.stored, (diskBytes lz4 true e).length) := by
    rw [h.contents, h.offset, himage]
    exact he.readDuringRecovery _ _
  have hmore : r.currentOffset < r.segment.fileSize := by
    have hpos : 0 < (diskBytes lz4 true e).length := diskBytes_pos e
    rw [h.offset, h.fileSize, himage, List.length_append, List.length_append]
    omega
  simp only [Recovery.round, hmore, if_true, hread]

private theorem iterate_eq (h : Recovered lz4 (diskImage lz4 true (entries ++ rest)) entries r)
    (hrest : ∀ e ∈ rest, Storable lz4 e) (overflowChecks : Bool) (fuel : Nat) {n : Nat}
    (hn : rest.length < n) :
    ∃ r', Loop.iterate (Recovery.round lz4 overflowChecks fuel) n r = some (some (.ok r')) ∧
      Recovered lz4 (diskImage lz4 true (entries ++ rest)) (entries ++ rest) r' := by
  induction rest generalizing entries r n with
  | nil =>
    obtain ⟨n, rfl⟩ : ∃ m, n = m + 1 := ⟨n - 1, by simp at hn; omega⟩
    have hdone : ¬ r.currentOffset < r.segment.fileSize := by
      rw [h.offset, h.fileSize, List.append_nil]
      exact Nat.lt_irrefl _
    refine ⟨r, ?_, ?_⟩
    · simp only [Loop.iterate, Recovery.round, hdone, if_false]
    · rwa [List.append_nil] at h ⊢
  | cons e rest ih =>
    obtain ⟨n, rfl⟩ : ∃ m, n = m + 1 := ⟨n - 1, by simp at hn; omega⟩
    have hnext := h.accept e
    have hsplit : entries ++ e :: rest = (entries ++ [e]) ++ rest := by simp
    have hround := h.round_eq (hrest e (by simp)) overflowChecks fuel
    rw [hsplit] at hnext ⊢
    obtain ⟨r', hr', hrec⟩ := ih hnext (fun x hx => hrest x (by simp [hx]))
      (Nat.lt_of_succ_lt_succ hn)
    exact ⟨r', by rw [Loop.iterate, hround]; exact hr', hrec⟩

end Recovered

private theorem length_le_diskImage (lz4 : Lz4) (c : Bool) (entries : List StorageEntry) :
    entries.length ≤ (diskImage lz4 c entries).length := by
  induction entries with
  | nil => exact Nat.zero_le _
  | cons e es ih =>
    have hpos : 0 < (diskBytes lz4 c e).length := diskBytes_pos e
    rw [diskImage_cons, List.length_append, List.length_cons]
    omega

private theorem recovered_unrecovered (lz4 : Lz4) (id : Nat) (file : Bytes) (c : Bool) :
    Recovered lz4 file []
      { segment := .unrecovered id file c, info := {}, currentOffset := 0 } where
  contents := rfl
  fileSize := rfl
  offset := rfl
  catalog := ⟨fun _ => rfl, rfl, rfl⟩
  count := rfl
  intact := ⟨rfl, rfl⟩

/-- A segment whose index stands for these entries, as `open_existing` leaves it. -/
structure Opened (lz4 : Lz4) (file : Bytes) (entries : List StorageEntry)
    (s : StorageSegment) : Prop where
  contents : s.file = file
  reader : s.ReadsFile
  catalog : Catalogs s (placements lz4 true 0 entries)
  count : s.entryCount = entries.length
  intact : s.recoveryInfo.corruptedEntries = 0 ∧ s.recoveryInfo.bytesCorrupted = 0

theorem openExisting_diskImage {lz4 : Lz4} (hes : ∀ e ∈ entries, Storable lz4 e)
    (overflowChecks mapped : Bool) (id : Nat) (c : Bool) {fuel : Nat}
    (hfuel : (diskImage lz4 true entries).length < fuel) :
    ∃ s, StorageSegment.openExisting lz4 overflowChecks fuel mapped id
        (diskImage lz4 true entries) c = some (.ok s) ∧
      Opened lz4 (diskImage lz4 true entries) entries s := by
  have hlen := length_le_diskImage lz4 true entries
  have hstart : Recovered lz4 (diskImage lz4 true ([] ++ entries)) []
      { segment := .unrecovered id (diskImage lz4 true entries) c, info := {},
        currentOffset := 0 } :=
    recovered_unrecovered lz4 id (diskImage lz4 true entries) c
  obtain ⟨r, hr, hrec⟩ :=
    hstart.iterate_eq hes overflowChecks fuel (Nat.lt_of_le_of_lt hlen hfuel)
  rw [List.nil_append] at hrec
  by_cases hemp : (diskImage lz4 true entries).length > 0
  · refine ⟨{ r.segment with
        recoveryInfo := r.info
        reader := some (.new mapped (diskImage lz4 true entries)) }, ?_, ?_⟩
    · simp only [StorageSegment.openExisting, hemp, if_true, StorageSegment.recoverSegment, hr]
      rfl
    · have hcat := hrec.catalog
      exact
        { contents := hrec.contents
          reader := .inr ⟨mapped, by rw [← hrec.contents]⟩
          catalog := ⟨hcat.lookup, hcat.first, hcat.last⟩
          count := hrec.count
          intact := hrec.intact }
  · -- an empty file is not scanned
    obtain rfl : entries = [] := List.length_eq_zero_iff.mp (by omega)
    refine ⟨{ StorageSegment.unrecovered id [] c with reader := some (.new mapped []) },
      rfl, ?_⟩
    exact
      { contents := rfl
        reader := .inr ⟨mapped, rfl⟩
        catalog := ⟨fun _ => rfl, rfl, rfl⟩
        count := rfl
        intact := ⟨rfl, rfl⟩ }

namespace Opened

variable {lz4 : Lz4} {entries : List StorageEntry} {s : StorageSegment}

private theorem returns (h : Opened lz4 (diskImage lz4 true entries) entries s)
    (hes : ∀ e ∈ entries, Storable lz4 e)
    (hdist : (entries.map StorageEntry.sequence).Nodup) (he : e ∈ entries) :
    Returns (s.readEntryBySequence lz4 e.sequence) e := by
  have hstor := hes e he
  obtain ⟨before, after, himage, hplace⟩ := diskImage_split lz4 true hdist he
  have hget : (s.sequenceIndex.lookup e.sequence).map IndexEntry.offset =
      some before.length := by
    rw [h.catalog.lookup, hplace, Nat.zero_add]
  have hst : ∀ read, Serves read s.file → readStored lz4 read before.length =
      .ok (e.serialize, (diskBytes lz4 true e).length) := by
    intro read hread
    rw [h.contents, himage] at hread
    exact hstor.readStored_eq hread
  rw [readEntryBySequence_eq h.reader hget hst, hstor.deserialize_eq]
  exact returns_stored e

end Opened

/-- On the file that any appends to a fresh compressed segment leave, `open_existing`
ends, rebuilds the same index and counts, reports no corruption, and every entry can be
read. -/
theorem compressed_recovery_exact (lz4 : Lz4) (overflowChecks mapped : Bool) (id : Nat)
    (c : Bool) (calls : List AppendCall)
    (hinv : ∀ data, lz4.decompress (lz4.compress data) = .ok data)
    (hlen : ∀ e ∈ appended calls, 0 < (lz4.compress e.serialize).length ∧
      (lz4.compress e.serialize).length < 2 ^ 32)
    (hvalid : ∀ e ∈ appended calls, e.validate = .ok ())
    (hdist : ((appended calls).map StorageEntry.sequence).Nodup) :
    ∃ s, (StorageSegment.createNew id [] true).appendAll lz4 calls = .ok s ∧
      ∀ fuel, s.file.length < fuel →
        ∃ opened, StorageSegment.openExisting lz4 overflowChecks fuel mapped id s.file c =
            some (.ok opened) ∧
          (∀ k, (opened.sequenceIndex.lookup k).map IndexEntry.offset =
            (s.sequenceIndex.lookup k).map IndexEntry.offset) ∧
          opened.entryCount = s.entryCount ∧
          opened.firstSequence = s.firstSequence ∧
          opened.lastSequence = s.lastSequence ∧
          opened.recoveryInfo.corruptedEntries = 0 ∧
          opened.recoveryInfo.bytesCorrupted = 0 ∧
          ∀ e ∈ appended calls, Returns (opened.readEntryBySequence lz4 e.sequence) e := by
  obtain ⟨s, hs, hwr⟩ := (Written.createNew lz4 id [] true).appendAll calls
  rw [List.nil_append] at hwr
  have hfile : s.file = diskImage lz4 true (appended calls) := hwr.file
  have hstor : ∀ e ∈ appended calls, Storable lz4 e := fun e he =>
    ⟨hinv _, (hlen e he).1, (hlen e he).2, hvalid e he⟩
  refine ⟨s, hs, fun fuel hfuel => ?_⟩
  rw [hfile] at hfuel ⊢
  obtain ⟨opened, hopen, h⟩ := openExisting_diskImage hstor overflowChecks mapped id c hfuel
  have hcat := hwr.catalog
  exact ⟨opened, hopen, fun k => (h.catalog.lookup k).trans (hcat.lookup k).symm,
    h.count.trans hwr.count.symm, h.catalog.first.trans hcat.first.symm,
    h.catalog.last.trans hcat.last.symm, h.intact.1, h.intact.2,
    fun e he => h.returns hstor hdist he⟩

theorem storing_inverse (data : Bytes) :
    storing.decompress (storing.compress data) = .ok data := by
  exact congrArg Except.ok (List.drop_left' (u32.length_putLe (.ofNat data.length)))

def sampleAppends : List AppendCall := [.entry (.new 42 7 [1, 2]), .batch [.new 41 8 []]]

theorem compressed_recovery_exact_sample :
    ∃ s, (StorageSegment.createNew 1 [] true).appendAll storing sampleAppends = .ok s ∧
      ∀ fuel, s.file.length < fuel →
        ∃ opened, StorageSegment.openExisting storing true fuel true 1 s.file true =
            some (.ok opened) ∧
          opened.firstSequence = s.firstSequence ∧
          Returns (opened.readEntryBySequence storing 42) (.new 42 7 [1, 2]) := by
  obtain ⟨s, hs, hopens⟩ := compressed_recovery_exact storing true true 1 true
    sampleAppends storing_inverse (by decide) (by decide) (by decide)
  refine ⟨s, hs, fun fuel hfuel => ?_⟩
  obtain ⟨opened, hopen, -, -, hfirst, -, -, -, hreads⟩ := hopens fuel hfuel
  exact ⟨opened, hopen, hfirst, hreads (.new 42 7 [1, 2]) (List.mem_cons_self ..)⟩

end Kaelix.Storage.Segments
