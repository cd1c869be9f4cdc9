import Kaelix.Storage.Wal.Entry
import Kaelix.Lib.Loop

/-!
# Segments of the write-ahead log

`WalSegment` of `wal/segment.rs`: a file of fixed capacity to which entries are written one behind
the other, through a memory map or through the file.  The memory map is shared, so both write the
same bytes, and it is as long as the file.
-/

namespace Kaelix.Storage.Wal

open Lib Lib.BigEndian

/-- `SegmentMetadata`, without the path and the times. -/
structure SegmentMetadata where
  id : Nat
  size : Nat
  capacity : Nat
  entryCount : Nat
  firstSequence : Option UInt64
  lastSequence : Option UInt64
  isSealed : Bool
  deriving DecidableEq

def SegmentMetadata.new (id capacity : Nat) : SegmentMetadata :=
  { id, size := 0, capacity, entryCount := 0, firstSequence := none, lastSequence := none,
    isSealed := false }

/-- `WalSegment`, with the contents of its file, which is as long as the capacity. -/
structure WalSegment where
  metadata : SegmentMetadata
  file : Bytes
  mapped : Bool
  writePosition : Nat
  length_file : file.length = metadata.capacity
  deriving DecidableEq

/-- Bytes written over the contents of a file from a position on. -/
def writeAt (file : Bytes) (position : Nat) (data : Bytes) : Bytes :=
  file.take position ++ data ++ file.drop (position + data.length)

variable {position : Nat} {file data : Bytes}

theorem length_writeAt (h : position + data.length ≤ file.length) :
    (writeAt file position data).length = file.length := by
  simp only [writeAt, List.length_append, List.length_take, List.length_drop]
  omega

theorem slice_writeAt_self (h : position ≤ file.length) :
    ((writeAt file position data).drop position).take data.length = data := by
  have hlen : (file.take position).length = position := List.length_take_of_le h
  rw [writeAt, List.append_assoc, List.drop_left' hlen, List.take_left]

theorem slice_writeAt {position start len : Nat} (hbef : start + len ≤ position)
    (h : position ≤ file.length) :
    ((writeAt file position data).drop start).take len = (file.drop start).take len := by
  have hdrop : (writeAt file position data).drop start =
      (file.take position).drop start ++ (data ++ file.drop (position + data.length)) := by
    rw [writeAt, List.append_assoc, List.drop_append_of_le_length]
    rw [List.length_take_of_le h]
    omega
  rw [hdrop, List.take_append_of_le_length, List.drop_take, List.take_take,
    Nat.min_eq_left (by omega)]
  rw [List.length_drop, List.length_take_of_le h]
  omega

/-- `WalSegment` without its file, which another segment may have open as well. -/
structure SegmentHandle where
  metadata : SegmentMetadata
  mapped : Bool
  writePosition : Nat
  deriving DecidableEq

namespace SegmentHandle

variable (h : SegmentHandle) (entry : LogEntry)

/-- The end of `write_entry`, after the bytes were written at the write position. -/
def advance : SegmentHandle :=
  { h with
    metadata := { h.metadata with
      size := h.writePosition + entry.serialize.length
      entryCount := h.metadata.entryCount + 1
      firstSequence := h.metadata.firstSequence.or (some entry.sequenceNumber)
      lastSequence := some entry.sequenceNumber }
    writePosition := h.writePosition + entry.serialize.length }

theorem advance_writePosition :
    (h.advance entry).writePosition = h.writePosition + entry.serialize.length := rfl

theorem advance_id : (h.advance entry).metadata.id = h.metadata.id := by
  rw [advance]

theorem advance_capacity : (h.advance entry).metadata.capacity = h.metadata.capacity := by
  rw [advance]

/-- `WalSegment::write_entry` on the file as it is by now: the result, the segment and the
file.  A memory map has the length of the capacity; where the file no longer reaches, the
system stops the process, and there is no result. -/
def writeEntry (h : SegmentHandle) (file : Bytes) (entry : LogEntry) :
    Option (Except WalError Nat × SegmentHandle × Bytes) :=
  let stop := h.writePosition + entry.serialize.length
  if h.metadata.isSealed then some (.error (.segmentSealed h.metadata.id), h, file)
  else if stop > h.metadata.capacity then
    some (.error (.segmentFull h.metadata.id), h, file)
  else if h.mapped then
    if stop ≤ file.length then
      some (.ok h.writePosition, h.advance entry, writeAt file h.writePosition entry.serialize)
    else none
  else
    -- a write behind the end of a file fills the gap with zeros
    let gap := List.replicate (h.writePosition - file.length) 0
    some (.ok h.writePosition, h.advance entry,
      writeAt (file ++ gap) h.writePosition entry.serialize)

variable {h entry}

theorem writeEntry_sealed (hseal : h.metadata.isSealed = true) :
    h.writeEntry file entry = some (.error (.segmentSealed h.metadata.id), h, file) :=
  if_pos hseal

theorem writeEntry_full (hopen : h.metadata.isSealed = false)
    (hfull : h.metadata.capacity < h.writePosition + entry.serialize.length) :
    h.writeEntry file entry = some (.error (.segmentFull h.metadata.id), h, file) := by
  rw [writeEntry, if_neg (by simp [hopen])]
  exact if_pos hfull

theorem writeEntry_fits (hopen : h.metadata.isSealed = false)
    (hfits : h.writePosition + entry.serialize.length ≤ h.metadata.capacity)
    (hend : h.writePosition + entry.serialize.length ≤ file.length) :
    h.writeEntry file entry = some (.ok h.writePosition, h.advance entry,
      writeAt file h.writePosition entry.serialize) := by
  rw [writeEntry, if_neg (by simp [hopen]), if_neg (Nat.not_lt.mpr hfits), if_pos hend,
    Nat.sub_eq_zero_of_le (by omega), List.replicate_zero]
  dsimp only
  rw [List.append_nil]
  exact ite_self _

/-- A write to a file as long as the capacity leaves it as long. -/
theorem length_of_writeEntry {result : Except WalError Nat} {h' : SegmentHandle} {file' : Bytes}
    (hw : h.writeEntry file entry = some (result, h', file'))
    (hlen : file.length = h.metadata.capacity) : file'.length = h'.metadata.capacity := by
  cases hseal : h.metadata.isSealed with
  | true =>
    rw [writeEntry_sealed hseal] at hw
    cases hw
    exact hlen
  | false =>
    rcases Nat.lt_or_ge h.metadata.capacity (h.writePosition + entry.serialize.length)
      with hfull | hfits
    · rw [writeEntry_full hseal hfull] at hw
      cases hw
      exact hlen
    · have hend : h.writePosition + entry.serialize.length ≤ file.length := by omega
      rw [writeEntry_fits hseal hfits hend] at hw
      cases hw
      rw [length_writeAt hend, advance_capacity]
      exact hlen

end SegmentHandle

namespace WalSegment

/-- `WalSegment::create`: the file is truncated and filled with zeros. -/
def create (id capacity : Nat) (useMmap : Bool) : WalSegment :=
  { metadata := .new id capacity, file := List.replicate capacity 0,
    mapped := useMmap && decide (capacity > 0), writePosition := 0,
    length_file := List.length_replicate }

variable (s : WalSegment)

/-- What a segment knows apart from the contents of its file. -/
def handle : SegmentHandle :=
  { metadata := s.metadata, mapped := s.mapped, writePosition := s.writePosition }

/-- `WalSegment::write_entry` on the file that the segment was created with: the result, and
the segment afterwards. -/
def writeEntryInPlace (entry : LogEntry) : Except WalError Nat × WalSegment :=
  match hw : s.handle.writeEntry s.file entry with
  | some (result, h, file) =>
    (result,
      { metadata := h.metadata, file, mapped := h.mapped, writePosition := h.writePosition,
        length_file := SegmentHandle.length_of_writeEntry hw s.length_file })
  -- not reached, as the file is as long as the memory map
  | none => (.error (.segmentFull s.metadata.id), s)

/-- `WalSegment::write_entry` for callers that go on with the segment after a success only. -/
def writeEntry (entry : LogEntry) : Except WalError (Nat × WalSegment) :=
  match s.writeEntryInPlace entry with
  | (.ok position, s) => .ok (position, s)
  | (.error e, _) => .error e

/-- The segment after a write that succeeded. -/
def advance (entry : LogEntry)
    (h : s.writePosition + entry.serialize.length ≤ s.file.length) : WalSegment :=
  { s with
    metadata := (s.handle.advance entry).metadata
    file := writeAt s.file s.writePosition entry.serialize
    writePosition := s.writePosition + entry.serialize.length
    length_file := by
      rw [length_writeAt h, SegmentHandle.advance_capacity]
      exact s.length_file }

section

variable (entry : LogEntry) (h : s.writePosition + entry.serialize.length ≤ s.file.length)

theorem advance_metadata : (s.advance entry h).metadata =
    { s.metadata with
      size := s.writePosition + entry.serialize.length
      entryCount := s.metadata.entryCount + 1
      firstSequence := s.metadata.firstSequence.or (some entry.sequenceNumber)
      lastSequence := some entry.sequenceNumber } := rfl

theorem advance_file :
    (s.advance entry h).file = writeAt s.file s.writePosition entry.serialize := rfl

theorem advance_writePosition :
    (s.advance entry h).writePosition = s.writePosition + entry.serialize.length := rfl

end

section

variable {s} {entry : LogEntry}

theorem le_length_file {n : Nat} (h : n ≤ s.metadata.capacity) : n ≤ s.file.length :=
  Nat.le_trans h (Nat.le_of_eq s.length_file.symm)

private theorem writeEntryInPlace_of_some {result : Except WalError Nat} {h : SegmentHandle}
    {file : Bytes} (hw : s.handle.writeEntry s.file entry = some (result, h, file)) :
    s.writeEntryInPlace entry =
      (result,
        { metadata := h.metadata, file, mapped := h.mapped, writePosition := h.writePosition,
          length_file := SegmentHandle.length_of_writeEntry hw s.length_file }) := by
  unfold writeEntryInPlace
  split
  · next hw' =>
    cases hw.symm.trans hw'
    rfl
  · next hw' => cases hw.symm.trans hw'

theorem writeEntryInPlace_sealed (hseal : s.metadata.isSealed = true) :
    s.writeEntryInPlace entry = (.error (.segmentSealed s.metadata.id), s) :=
  writeEntryInPlace_of_some (SegmentHandle.writeEntry_sealed (h := s.handle) hseal)

theorem writeEntryInPlace_full (hopen : s.metadata.isSealed = false)
    (hfull : s.metadata.capacity < s.writePosition + entry.serialize.length) :
    s.writeEntryInPlace entry = (.error (.segmentFull s.metadata.id), s) :=
  writeEntryInPlace_of_some (SegmentHandle.writeEntry_full (h := s.handle) hopen hfull)

private theorem writeEntryInPlace_fits (hopen : s.metadata.isSealed = false)
    (hfits : s.writePosition + entry.serialize.length ≤ s.metadata.capacity) :
    s.writeEntryInPlace entry =
      (.ok s.writePosition, s.advance entry (le_length_file hfits)) :=
  writeEntryInPlace_of_some
    (SegmentHandle.writeEntry_fits (h := s.handle) hopen hfits (le_length_file hfits))

theorem writeEntryInPlace_cases (s : WalSegment) (entry : LogEntry) :
    (s.metadata.isSealed = true ∧
        s.writeEntryInPlace entry = (.error (.segmentSealed s.metadata.id), s)) ∨
      (s.metadata.isSealed = false ∧
        s.metadata.capacity < s.writePosition + entry.serialize.length ∧
        s.writeEntryInPlace entry = (.error (.segmentFull s.metadata.id), s)) ∨
      (s.metadata.isSealed = false ∧
        ∃ hend : s.writePosition + entry.serialize.length ≤ s.file.length,
          s.writeEntryInPlace entry = (.ok s.writePosition, s.advance entry hend)) := by
  cases hseal : s.metadata.isSealed with
  | true => exact .inl ⟨rfl, writeEntryInPlace_sealed hseal⟩
  | false =>
    right
    rcases Nat.lt_or_ge s.metadata.capacity (s.writePosition + entry.serialize.length)
      with hfull | hfits
    · exact .inl ⟨rfl, hfull, writeEntryInPlace_full hseal hfull⟩
    · exact .inr ⟨rfl, _, writeEntryInPlace_fits hseal hfits⟩

theorem writeEntryInPlace_error {e : WalError} {s' : WalSegment}
    (h : s.writeEntryInPlace entry = (.error e, s')) : s' = s := by
  obtain ⟨-, hw⟩ | ⟨-, -, hw⟩ | ⟨-, hend, hw⟩ := s.writeEntryInPlace_cases entry
  · exact (congrArg Prod.snd (h.symm.trans hw))
  · exact (congrArg Prod.snd (h.symm.trans hw))
  · cases h.symm.trans hw

theorem writeEntry_full (hopen : s.metadata.isSealed = false)
    (hfull : s.metadata.capacity < s.writePosition + entry.serialize.length) :
    s.writeEntry entry = .error (.segmentFull s.metadata.id) := by
  rw [writeEntry, writeEntryInPlace_full hopen hfull]

theorem writeEntry_fits (hopen : s.metadata.isSealed = false)
    (hend : s.writePosition + entry.serialize.length ≤ s.file.length) :
    s.writeEntry entry = .ok (s.writePosition, s.advance entry hend) := by
  rw [writeEntry, writeEntryInPlace_fits hopen (s.length_file ▸ hend)]

end

def readExact (file : Bytes) (position len : Nat) : Option Bytes :=
  if len ≤ file.length - position then some ((file.drop position).take len) else none

variable (bincode : Bincode)

def readEntryMapped (mmap : Bytes) (position : Nat) : Except WalError LogEntry :=
  if position ≥ mmap.length then .error (.io "Position beyond segment bounds")
  else if position + 24 > mmap.length then .error (.io "Insufficient data for header")
  else do
    let header ← LogEntry.deserializeHeader bincode ((mmap.drop position).take 24)
    let totalSize := 24 + header.payloadLength.toNat
    if position + totalSize > mmap.length then .error (.io "Insufficient data for full entry")
    else LogEntry.deserialize bincode ((mmap.drop position).take totalSize)

def readEntryFile (file : Bytes) (position : Nat) : Except WalError LogEntry :=
  match readExact file position 24 with
  | none => .error (.io "Failed to read header: failed to fill whole buffer")
  | some headerBuf => do
    let header ← LogEntry.deserializeHeader bincode headerBuf
    match readExact file (position + 24) header.payloadLength.toNat with
    | none => .error (.io "Failed to read payload: failed to fill whole buffer")
    | some payloadBuf => LogEntry.deserialize bincode (headerBuf ++ payloadBuf)

def readEntry (s : WalSegment) (position : Nat) : Except WalError LogEntry :=
  if s.mapped then readEntryMapped bincode s.file position
  else readEntryFile bincode s.file position

def sealSegment : WalSegment :=
  { s with metadata := { s.metadata with isSealed := true } }

/-- Entries written one after the other, all with success: their positions, and the
segment afterwards. -/
def writeAll (s : WalSegment) : List LogEntry → Except WalError (List Nat × WalSegment)
  | [] => .ok ([], s)
  | entry :: entries => do
    let (position, s) ← s.writeEntry entry
    let (positions, s) ← s.writeAll entries
    .ok (position :: positions, s)

end WalSegment

/-! ### What is stored -/

/-- The bytes of an entry stand at a position before the write position. -/
structure Stores (s : WalSegment) (position : Nat) (entry : LogEntry) : Prop where
  slice : (s.file.drop position).take entry.serialize.length = entry.serialize
  before : position + entry.serialize.length ≤ s.writePosition
  inside : s.writePosition ≤ s.file.length

variable {s s' : WalSegment} {entry : LogEntry}

private theorem writeEntry_ok (h : s.writeEntry entry = .ok (position, s')) :
    position = s.writePosition ∧
      s.writePosition + entry.serialize.length ≤ s.file.length ∧
      s'.file = writeAt s.file s.writePosition entry.serialize ∧
      s'.writePosition = s.writePosition + entry.serialize.length ∧
      s'.writePosition ≤ s'.file.length := by
  unfold WalSegment.writeEntry at h
  obtain ⟨-, hw⟩ | ⟨-, -, hw⟩ | ⟨-, hend, hw⟩ := s.writeEntryInPlace_cases entry
  · rw [hw] at h
    cases h
  · rw [hw] at h
    cases h
  · rw [hw] at h
    cases h
    refine ⟨rfl, hend, rfl, rfl, ?_⟩
    rw [s.advance_file, length_writeAt hend]
    exact hend

private theorem writeEntry_stores
    (h : s.writeEntry entry = .ok (position, s')) : Stores s' position entry := by
  obtain ⟨rfl, hfits, hfile, hpos, hinside⟩ := writeEntry_ok h
  refine ⟨?_, Nat.le_of_eq hpos.symm, hinside⟩
  rw [hfile, slice_writeAt_self (by omega)]

theorem Stores.writeEntry {entry entry' : LogEntry}
    {position position' : Nat} (hsts : Stores s position entry)
    (h : s.writeEntry entry' = .ok (position', s')) : Stores s' position entry := by
  obtain ⟨-, -, hfile, hpos, hinside⟩ := writeEntry_ok h
  have hbef := hsts.before
  refine ⟨?_, by omega, hinside⟩
  rw [hfile, slice_writeAt hbef hsts.inside]
  exact hsts.slice

variable {entries : List LogEntry} {positions : List Nat}

private theorem writeAll_cons (h : s.writeAll (entry :: entries) = .ok (positions, s')) :
    ∃ position rest s₁, positions = position :: rest ∧
      s.writeEntry entry = .ok (position, s₁) ∧ s₁.writeAll entries = .ok (rest, s') := by
  simp only [WalSegment.writeAll, bind, Except.bind] at h
  split at h
  · cases h
  · next first hfirst =>
      split at h
      · cases h
      · next others hoths =>
          cases h
          exact ⟨_, _, _, rfl, hfirst, hoths⟩

theorem Stores.writeAll (hsts : Stores s position entry)
    (h : s.writeAll entries = .ok (positions, s')) : Stores s' position entry := by
  induction entries generalizing s positions with
  | nil =>
    cases h
    exact hsts
  | cons e entries ih =>
    obtain ⟨_, _, s₁, -, hfirst, hrest⟩ := writeAll_cons h
    exact ih (hsts.writeEntry hfirst) hrest

theorem writeAll_stores (h : s.writeAll entries = .ok (positions, s')) :
    positions.length = entries.length ∧
      ∀ p ∈ positions.zip entries, Stores s' p.1 p.2 := by
  induction entries generalizing s positions with
  | nil =>
    cases h
    exact ⟨rfl, fun p hp => absurd hp (List.not_mem_nil)⟩
  | cons e entries ih =>
    obtain ⟨position, rest, s₁, rfl, hfirst, hrest⟩ := writeAll_cons h
    obtain ⟨hlen, hsts⟩ := ih hrest
    refine ⟨congrArg Nat.succ hlen, ?_⟩
    intro p hp
    rw [List.zip_cons_cons, List.mem_cons] at hp
    rcases hp with rfl | hp
    · exact (writeEntry_stores hfirst).writeAll hrest
    · exact hsts p hp

/-! ### Reading an entry -/

theorem Stores.readEntry {bincode : Bincode} {s : WalSegment} (h : Stores s position entry) :
    ∃ e : String, s.readEntry bincode position =
      .error (.serialization s!"Failed to deserialize entry: {e}") := by
  have hlen := entry.length_serialize
  have hbef := h.before
  have hinside := h.inside
  have hhdr : (s.file.drop position).take 24 = entry.serialize.take 24 := by
    rw [← h.slice, List.take_take, Nat.min_eq_left (by omega)]
  obtain ⟨e, he⟩ := LogEntry.deserializeHeader_take bincode entry
  refine ⟨e, ?_⟩
  unfold WalSegment.readEntry
  split
  · rw [WalSegment.readEntryMapped, if_neg (by omega), if_neg (by omega), hhdr, he]
    rfl
  · rw [WalSegment.readEntryFile, WalSegment.readExact, if_pos (by omega), hhdr]
    dsimp only
    rw [he]
    rfl

variable (bincode : Bincode)

/-- Every entry that was written is read back at its position. -/
def ReadsBack (s : WalSegment) (positions : List Nat) (entries : List LogEntry) : Prop :=
  ∀ p ∈ positions.zip entries, s.readEntry bincode p.1 = .ok p.2

/-- From any segment, with or without a memory map, the entries of a sequence of writes
that succeed are read back exactly when there are none. -/
theorem segment_round_trip_iff (bincode : Bincode) (s s' : WalSegment) (entries : List LogEntry)
    (positions : List Nat) (h : s.writeAll entries = .ok (positions, s')) :
    ReadsBack bincode s' positions entries ↔ entries = [] := by
  obtain ⟨hlen, hsts⟩ := writeAll_stores h
  constructor
  · intro hreads
    cases entries with
    | nil => rfl
    | cons entry entries =>
      obtain ⟨position, rest, _, rfl, -, -⟩ := writeAll_cons h
      have hmem : (position, entry) ∈ (position :: rest).zip (entry :: entries) := by
        simp
      obtain ⟨e, he⟩ := (hsts _ hmem).readEntry
      cases (hreads _ hmem).symm.trans he
  · intro hemp p hp
    rw [hemp, List.zip_nil_right] at hp
    exact absurd hp List.not_mem_nil

def sampleEntry : LogEntry := .new (fun _ => 0) 1 12345 [] LogEntry.length_nil_lt

theorem segment_round_trip_sample :
    ∃ s', (WalSegment.create 1 64 true).writeAll [sampleEntry] = .ok ([0], s') ∧
      (ReadsBack .fixint s' [0] [sampleEntry] ↔ [sampleEntry] = []) :=
  ⟨_, rfl, segment_round_trip_iff .fixint (.create 1 64 true) _ [sampleEntry] [0] rfl⟩

/-- One entry, written to a file without a memory map, is not read back. -/
theorem segment_not_round_trip :
    ¬ ∀ (bincode : Bincode) (s s' : WalSegment) (entries : List LogEntry)
      (positions : List Nat), s.writeAll entries = .ok (positions, s') →
        ReadsBack bincode s' positions entries := by
  intro hroundTrip
  obtain ⟨s', hs'⟩ : ∃ s', (WalSegment.create 1 64 false).writeAll [sampleEntry] =
      .ok ([0], s') := ⟨_, rfl⟩
  have hmem : (0, sampleEntry) ∈ [0].zip [sampleEntry] := by simp
  obtain ⟨e, he⟩ := ((writeAll_stores hs').2 _ hmem).readEntry
  cases (hroundTrip .fixint _ _ _ _ hs' _ hmem).symm.trans he

/-! ### Opening a segment -/

def parseU64 (s : List Char) : Option Nat :=
  let digits := if s.head? = some '+' then s.tail else s
  if digits.isEmpty then none
  else if digits.all Char.isDigit then
    let n := digits.foldl (fun n c => n * 10 + (c.toNat - '0'.toNat)) 0
    if n < 2 ^ 64 then some n else none
  else none

/-- The identifier that `open` takes from a file name: the text behind the first dash. -/
def parseSegmentId (filename : String) : Option Nat :=
  (filename.toList.splitOn '-')[1]?.bind parseU64

/-- The variables of the loop of `scan_segment`; `cursor` is the position in the file. -/
structure Scan where
  entryCount : Nat := 0
  position : Nat := 0
  firstSequence : Option UInt64 := none
  lastSequence : Option UInt64 := none
  cursor : Nat := 0

variable (file : Bytes)

def Scan.round (scan : Scan) : Scan ⊕ Except WalError Scan :=
  match WalSegment.readExact file scan.cursor 24 with
  | none => .inr (.ok scan)
  | some headerBuf =>
    match LogEntry.deserializeHeader bincode headerBuf with
    | .error _ => .inr (.error (.io "Failed to parse entry header"))
    | .ok entry =>
      let payloadLen := entry.payloadLength.toNat
      .inl
        { entryCount := scan.entryCount + 1
          position := scan.position + (24 + payloadLen)
          firstSequence := scan.firstSequence.or (some entry.sequenceNumber)
          lastSequence := some entry.sequenceNumber
          cursor := scan.cursor + 24 + payloadLen }

theorem Scan.round_decreases (scan scan' : Scan) (h : scan.round bincode file = .inl scan') :
    file.length - scan'.cursor < file.length - scan.cursor := by
  unfold Scan.round WalSegment.readExact at h
  by_cases hread : 24 ≤ file.length - scan.cursor
  · rw [if_pos hread] at h
    dsimp only at h
    split at h
    · cases h
    · cases h
      dsimp only
      omega
  · rw [if_neg hread] at h
    cases h

/-- The entries from the start on. -/
def scanSegment : Except WalError Scan :=
  Loop.run (Scan.round bincode file) (fun scan => file.length - scan.cursor)
    (Scan.round_decreases bincode file) {}

/-- `WalSegment::open` on a file with a name. -/
def WalSegment.openSegment (filename : String) (file : Bytes)
    (useMmap : Bool) : Except WalError WalSegment :=
  match parseSegmentId filename with
  | none => .error (.invalidPath s!"Cannot parse segment ID from: {filename}")
  | some id => do
    let scan ← scanSegment bincode file
    .ok
      { metadata := { SegmentMetadata.new id file.length with
          size := scan.position
          entryCount := scan.entryCount
          firstSequence := scan.firstSequence
          lastSequence := scan.lastSequence }
        file
        mapped := useMmap && decide (file.length > 0)
        writePosition := scan.position
        length_file := rfl }

def segmentFileName (id : Nat) : String :=
  String.ofList ("segment-".toList ++ (Nat.toDigits 10 id ++ ".log".toList))

private theorem parseU64_eq_none {s : List Char} {c : Char} (hc : c ∈ s)
    (hdigit : c.isDigit = false)
    (hplus : c ≠ '+') : parseU64 s = none := by
  have hmem : c ∈ (if s.head? = some '+' then s.tail else s) := by
    split
    · next hhead =>
        cases s with
        | nil => cases hc
        | cons d =>
          obtain rfl : d = '+' := Option.some.inj hhead
          exact (List.mem_cons.mp hc).resolve_left hplus
    · exact hc
  have hall : (if s.head? = some '+' then s.tail else s).all Char.isDigit = false := by
    rw [List.all_eq_false]
    exact ⟨c, hmem, by simp [hdigit]⟩
  unfold parseU64
  dsimp only
  rw [hall]
  simp

private theorem parseSegmentId_eq {l : List Char} (hl : ∀ c ∈ l, (c == '-') = false) :
    parseSegmentId (String.ofList ("segment-".toList ++ l)) = parseU64 l := by
  have hname : (String.ofList ("segment-".toList ++ l)).toList =
      "segment".toList ++ '-' :: l := by
    rw [String.toList_ofList]
    rfl
  have hseg : ∀ c ∈ "segment".toList, (c == '-') = false := by simp
  have hsplit : (String.ofList ("segment-".toList ++ l)).toList.splitOn '-' =
      ["segment".toList, l] := by
    rw [hname, List.splitOn, List.splitOnP_append_cons_of_forall_mem hseg _ rfl,
      List.splitOnP_eq_singleton hl]
  rw [parseSegmentId, hsplit]
  rfl

private theorem parseSegmentId_segmentFileName (id : Nat) :
    parseSegmentId (segmentFileName id) = none := by
  have hlog : ∀ c ∈ ".log".toList, (c == '-') = false := by simp
  have hdash : ∀ c ∈ Nat.toDigits 10 id ++ ".log".toList, (c == '-') = false := by
    intro c hc
    rcases List.mem_append.mp hc with hdigit | hlast
    · have hc' := Nat.isDigit_of_mem_toDigits (by decide) (by decide) hdigit
      rw [beq_eq_false_iff_ne]
      rintro rfl
      cases hc'
    · exact hlog c hlast
  have hdot : '.' ∈ Nat.toDigits 10 id ++ ".log".toList := List.mem_append_right _ (by decide)
  exact (parseSegmentId_eq hdash).trans (parseU64_eq_none hdot (by decide) (by decide))

/-- `open` succeeds on the file of a segment, and yields its state. -/
def Reopens (useMmap : Bool) (id : Nat) (s : WalSegment) : Prop :=
  ∃ opened, WalSegment.openSegment bincode (segmentFileName id) s.file useMmap = .ok opened ∧
    opened.metadata.id = s.metadata.id ∧
    opened.metadata.entryCount = s.metadata.entryCount ∧
    opened.metadata.size = s.metadata.size ∧
    opened.metadata.firstSequence = s.metadata.firstSequence ∧
    opened.metadata.lastSequence = s.metadata.lastSequence

private theorem openSegment_segmentFileName (id : Nat) (file : Bytes) (useMmap : Bool) :
    WalSegment.openSegment bincode (segmentFileName id) file useMmap =
      .error (.invalidPath s!"Cannot parse segment ID from: {segmentFileName id}") := by
  have hid := parseSegmentId_segmentFileName id
  unfold WalSegment.openSegment
  rw [hid]

private theorem not_reopens (useMmap : Bool) (id : Nat) (s : WalSegment) :
    ¬ Reopens bincode useMmap id s := by
  rintro ⟨opened, hopen, -⟩
  cases hopen.symm.trans (openSegment_segmentFileName bincode id s.file useMmap)

/-- No segment, whatever was written to it, is opened again under the name
`segment-<id>.log`: the name is rejected before the file is looked at. -/
theorem segment_open_fails (bincode : Bincode) (useMmap : Bool) (id : Nat) (s : WalSegment) :
    WalSegment.openSegment bincode (segmentFileName id) s.file useMmap =
        .error (.invalidPath s!"Cannot parse segment ID from: {segmentFileName id}") ∧
      ¬ Reopens bincode useMmap id s :=
  ⟨openSegment_segmentFileName bincode id s.file useMmap, not_reopens bincode useMmap id s⟩

/-- A segment to which nothing was written is not opened again. -/
theorem segment_not_reopened :
    ¬ ∀ (bincode : Bincode) (useMmap : Bool) (id capacity : Nat) (entries : List LogEntry)
      (positions : List Nat) (s : WalSegment),
      (WalSegment.create id capacity useMmap).writeAll entries = .ok (positions, s) →
        Reopens bincode useMmap id s :=
  fun hreopens => not_reopens .fixint false 1 (.create 1 0 false)
    (hreopens .fixint false 1 0 [] [] (.create 1 0 false) rfl)

end Kaelix.Storage.Wal
