import Kaelix.Storage.Segments.Entry

/-!
# Storage segments

`SegmentWriter` of `segments/segment_writer.rs`, and `SegmentReader` and `StorageSegment` of
`segments/segment.rs` without the recovery scan.

The segment file is a string of bytes.  It is opened for appending, so a write adds to its end.
I/O succeeds; what may fail is a read past the end of the file.  LZ4 is given by two functions,
`compress_prepend_size` and `decompress_size_prepended`.
-/

namespace Kaelix.Storage.Segments

open Lib Lib.BigEndian

/-- The two functions of `lz4_flex` in use. -/
structure Lz4 where
  compress : Bytes → Bytes
  decompress : Bytes → Except String Bytes

structure WriteResult where
  segmentId : Nat
  offset : Nat
  sizeOnDisk : Nat
  deriving DecidableEq

/-- The writing half of a segment. -/
structure SegmentWriter where
  segmentId : Nat
  writePosition : Nat
  entryCount : Nat
  isSealed : Bool
  enableCompression : Bool
  deriving DecidableEq

/-- The bytes that are written for an entry: the compressed length, or zero for an entry
that is not compressed, and the entry. -/
def diskBytes (lz4 : Lz4) (enableCompression : Bool) (entry : StorageEntry) : Bytes :=
  let serialized := entry.serialize
  if enableCompression then
    let compressed := lz4.compress serialized
    u32.putLe (.ofNat compressed.length) ++ compressed
  else
    u32.putLe 0 ++ serialized

namespace SegmentWriter

/-- `SegmentWriter::new` on a file that may hold bytes already. -/
def new (segmentId : Nat) (file : Bytes) (enableCompression : Bool) : SegmentWriter :=
  { segmentId, writePosition := file.length, entryCount := 0, isSealed := false,
    enableCompression }

/-- `SegmentWriter::write_entry`: the result, the writer and the file afterwards. -/
def writeEntry (lz4 : Lz4) (w : SegmentWriter) (file : Bytes) (entry : StorageEntry) :
    Outcome (WriteResult × SegmentWriter × Bytes) :=
  if w.isSealed then invalidOperation s!"Segment {w.segmentId} is sealed"
  else
    let data := diskBytes lz4 w.enableCompression entry
    let offset := w.writePosition
    .ok ({ segmentId := w.segmentId, offset, sizeOnDisk := data.length },
      { w with writePosition := offset + data.length, entryCount := w.entryCount + 1 },
      file ++ data)

/-- A batch as it is gathered. -/
structure BatchBuffer where
  results : List WriteResult
  writeBuffer : Bytes
  currentOffset : Nat
  totalDiskBytes : Nat

def batchRound (lz4 : Lz4) (w : SegmentWriter) (b : BatchBuffer) (entry : StorageEntry) :
    BatchBuffer :=
  let data := diskBytes lz4 w.enableCompression entry
  { results := b.results ++
      [{ segmentId := w.segmentId, offset := b.currentOffset, sizeOnDisk := data.length }],
    writeBuffer := b.writeBuffer ++ data,
    currentOffset := b.currentOffset + data.length,
    totalDiskBytes := b.totalDiskBytes + data.length }

def writeBatch (lz4 : Lz4) (w : SegmentWriter) (file : Bytes)
    (entries : List StorageEntry) : Outcome (List WriteResult × SegmentWriter × Bytes) :=
  if w.isSealed then invalidOperation s!"Segment {w.segmentId} is sealed"
  else if entries.isEmpty then .ok ([], w, file)
  else
    let b := entries.foldl (batchRound lz4 w)
      { results := [], writeBuffer := [], currentOffset := w.writePosition, totalDiskBytes := 0 }
    .ok (b.results,
      { w with
        writePosition := w.writePosition + b.totalDiskBytes
        entryCount := w.entryCount + entries.length },
      file ++ b.writeBuffer)

def size (w : SegmentWriter) : Nat := w.writePosition

end SegmentWriter

/-- `read_exact` of `len` bytes after a seek to `offset`. -/
def readExact (file : Bytes) (offset len : Nat) (what : String) : Outcome Bytes :=
  if len ≤ file.length - offset then .ok ((file.drop offset).take len)
  else ioError s!"Failed to read {what}: early eof"

/-- `SegmentReader`: the file, and its memory mapping if there is one. -/
structure SegmentReader where
  mmap : Option Bytes
  file : Bytes
  fileSize : Nat

namespace SegmentReader

/-- `SegmentReader::new`; `mapped` says whether the system maps the file. -/
def new (mapped : Bool) (file : Bytes) : SegmentReader :=
  { mmap := if file.length > 4096 then (if mapped then some file else none) else none,
    file, fileSize := file.length }

def readFileAt (r : SegmentReader) (offset len : Nat) : Outcome Bytes :=
  if len ≤ r.file.length - offset then .ok ((r.file.drop offset).take len)
  else ioError "Failed to read: failed to fill whole buffer"

def readAt (r : SegmentReader) (offset len : Nat) : Outcome Bytes :=
  if offset + len > r.fileSize then
    ioError s!"Read beyond file bounds: offset {offset} + len {len} > size {r.fileSize}"
  else
    match r.mmap with
    | some mmap =>
      if offset + len ≤ mmap.length then .ok ((mmap.drop offset).take len)
      else r.readFileAt offset len
    | none => r.readFileAt offset len

end SegmentReader

/-- The bytes of the entry stored at an offset and the length of what is stored.  The
payload length is taken from the header's last four bytes. -/
def readStored (lz4 : Lz4) (read : Nat → Nat → String → Outcome Bytes) (offset : Nat) :
    Outcome (Bytes × Nat) := do
  let compressionHeader ← read offset 4 "compression header"
  let compressedLen := (u32.getLe compressionHeader).toNat
  if compressedLen > 0 then
    let compressedData ← read (offset + 4) compressedLen "compressed data"
    match lz4.decompress compressedData with
    | .ok data => .ok (data, 4 + compressedLen)
    | .error e => ioError s!"LZ4 decompression failed at offset {offset}: {e}"
  else
    let entryHeader ← read (offset + 4) 24 "entry header"
    let payloadLen := (u32.readLe 20 entryHeader).toNat
    let payload ← read (offset + 4 + 24) payloadLen "payload"
    .ok (entryHeader ++ payload, 4 + (24 + payloadLen))

/-- Where a sequence number lies. -/
structure IndexEntry where
  sequence : UInt64
  offset : Nat
  size : UInt32
  timestamp : UInt64
  deriving DecidableEq

/-- What recovery counted. -/
structure RecoveryInfo where
  entriesRecovered : Nat := 0
  corruptedEntries : Nat := 0
  bytesRecovered : Nat := 0
  bytesCorrupted : Nat := 0
  deriving DecidableEq

/-- `StorageSegment`, with the contents of the file at its path. -/
structure StorageSegment where
  id : Nat
  file : Bytes
  writer : Option SegmentWriter
  reader : Option SegmentReader
  sequenceIndex : HashMap UInt64 IndexEntry
  sortedIndex : Std.TreeMap UInt64 IndexEntry
  entryCount : Nat
  fileSize : Nat
  firstSequence : UInt64
  lastSequence : UInt64
  isSealed : Bool
  enableCompression : Bool
  recoveryInfo : RecoveryInfo

namespace StorageSegment

def createNew (id : Nat) (file : Bytes) (enableCompression : Bool) : StorageSegment :=
  { id, file, writer := some (.new id file enableCompression), reader := none,
    sequenceIndex := ∅, sortedIndex := ∅, entryCount := 0, fileSize := 0,
    firstSequence := .ofNat (2 ^ 64 - 1), lastSequence := 0, isSealed := false,
    enableCompression, recoveryInfo := {} }

def record (s : StorageSegment) (e : IndexEntry) : StorageSegment :=
  { s with
    sequenceIndex := s.sequenceIndex.insert e.sequence e
    sortedIndex := s.sortedIndex.insert e.sequence e
    firstSequence := min s.firstSequence e.sequence
    lastSequence := max s.lastSequence e.sequence }

def indexEntry (entry : StorageEntry) (offset : Nat) : IndexEntry :=
  { sequence := entry.sequence, offset, size := .ofNat entry.size,
    timestamp := entry.metadata.timestamp }

variable (lz4 : Lz4) (s : StorageSegment)

/-- `StorageSegment::append_entry`: the offset, and the segment afterwards. -/
def appendEntry (entry : StorageEntry) : Outcome (Nat × StorageSegment) :=
  if s.isSealed then ioError s!"Segment {s.id} is sealed"
  else
    match s.writer with
    | none => ioError s!"No writer available for segment {s.id}"
    | some writer => do
      let (result, writer, file) ← writer.writeEntry lz4 s.file entry
      let s := s.record (indexEntry entry result.offset)
      .ok (result.offset,
        { s with
          file, writer := some writer
          entryCount := s.entryCount + 1
          fileSize := writer.size })

def appendBatch (entries : List StorageEntry) : Outcome (List Nat × StorageSegment) :=
  if s.isSealed then ioError s!"Segment {s.id} is sealed"
  else
    match s.writer with
    | none => ioError s!"No writer available for segment {s.id}"
    | some writer => do
      let (results, writer, file) ← writer.writeBatch lz4 s.file entries
      let offsets := results.map WriteResult.offset
      let s := (entries.zip offsets).foldl (fun s p => s.record (indexEntry p.1 p.2)) s
      .ok (offsets,
        { s with
          file, writer := some writer
          entryCount := s.entryCount + entries.length
          fileSize := writer.size })

def readEntryWithReader (reader : SegmentReader) (offset : Nat) :
    Outcome StorageEntry := do
  let (data, _) ← readStored lz4 (fun offset len _ => reader.readAt offset len) offset
  StorageEntry.deserialize data

def readEntryAtOffsetFallback (offset : Nat) :
    Outcome StorageEntry := do
  let (data, _) ← readStored lz4 (readExact s.file) offset
  StorageEntry.deserialize data

/-- By the reader of a sealed segment, else from the file. -/
def readEntryAtOffset (offset : Nat) : Outcome StorageEntry :=
  match s.reader with
  | some reader => readEntryWithReader lz4 reader offset
  | none => s.readEntryAtOffsetFallback lz4 offset

def readEntryBySequence (sequence : UInt64) : Outcome StorageEntry :=
  match s.sequenceIndex.lookup sequence with
  | none => .error (.error (.notFound s!"Sequence {sequence} not found"))
  | some e => s.readEntryAtOffset lz4 e.offset

/-- `StorageSegment::seal`; the writer is taken out, sealed and dropped. -/
def sealSegment (mapped : Bool) (s : StorageSegment) : StorageSegment :=
  { s with
    writer := none
    reader := if s.fileSize > 0 then some (.new mapped s.file) else s.reader
    isSealed := true }

end StorageSegment

end Kaelix.Storage.Segments
