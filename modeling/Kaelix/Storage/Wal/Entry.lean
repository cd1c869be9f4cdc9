import Kaelix.Lib.ByteOrder

/-!
# Log entries

`LogEntry` of `wal/entry.rs` and its serialized form.

The entry is serialized by `bincode` with its default options: integers of fixed width,
little-endian, the variant of an enumeration as a `u32`, and a `u64` length before the elements of
a vector.  So the bytes are those of `LogEntry.serialize`.
-/

namespace Kaelix.Storage.Wal

open Lib.BigEndian

abbrev Bytes := List UInt8

/-- What the log can fail with. -/
inductive WalError where
  | io (message : String)
  | serialization (message : String)
  | segmentFull (id : Nat)
  | segmentSealed (id : Nat)
  | configuration (message : String)
  | invalidOperation (message : String)
  | invalidPath (message : String)
  | shutdown
  deriving DecidableEq

inductive EntryType where
  | message
  | control
  | heartbeat
  deriving DecidableEq

def EntryType.variant : EntryType → UInt32
  | .message => 0
  | .control => 1
  | .heartbeat => 2

def EntryType.ofVariant (v : UInt32) : Option EntryType :=
  if v = 0 then some .message
  else if v = 1 then some .control
  else if v = 2 then some .heartbeat
  else none

theorem EntryType.ofVariant_variant (t : EntryType) : ofVariant t.variant = some t := by
  cases t <;> rfl

structure EntryMetadata where
  entryType : EntryType
  version : UInt8
  flags : UInt16
  deriving DecidableEq

def EntryMetadata.message : EntryMetadata := { entryType := .message, version := 1, flags := 0 }

/-- `LogEntry`.  A vector has fewer than `2 ^ 64` elements. -/
structure LogEntry where
  sequenceNumber : UInt64
  timestamp : UInt64
  metadata : EntryMetadata
  payloadLength : UInt32
  checksum : UInt32
  payload : Bytes
  payload_lt : payload.length < 2 ^ 64
  deriving DecidableEq

namespace LogEntry

/-- `LogEntry::new` for a message with these serialized bytes. -/
def new (crc32 : Bytes → UInt32) (sequenceNumber timestamp : UInt64) (payload : Bytes)
    (h : payload.length < 2 ^ 64) : LogEntry :=
  { sequenceNumber, timestamp, metadata := .message,
    payloadLength := .ofNat payload.length, checksum := crc32 payload, payload,
    payload_lt := h }

theorem length_nil_lt : ([] : Bytes).length < 2 ^ 64 := Nat.two_pow_pos 64

variable (entry : LogEntry)

def serializedSize : Nat := 24 + entry.payload.length

def fixedPart : Bytes :=
  u64.putLe entry.sequenceNumber ++ u64.putLe entry.timestamp ++
    u32.putLe entry.metadata.entryType.variant ++ u8.putLe entry.metadata.version ++
    u16.putLe entry.metadata.flags ++ u32.putLe entry.payloadLength ++
    u32.putLe entry.checksum ++ u64.putLe (.ofNat entry.payload.length)

def serialize : Bytes := entry.fixedPart ++ entry.payload

@[simp] theorem length_fixedPart (entry : LogEntry) : entry.fixedPart.length = 39 := by
  simp [fixedPart]

@[simp] theorem length_serialize (entry : LogEntry) :
    entry.serialize.length = 39 + entry.payload.length := by
  simp [serialize]

end LogEntry

/-- `bincode::deserialize` for log entries: it inverts `serialize` and fails when the end
of an entry is missing. -/
structure Bincode where
  deserialize : Bytes → Except String LogEntry
  inverse : ∀ entry : LogEntry, deserialize entry.serialize = .ok entry
  truncated : ∀ (entry : LogEntry) (n : Nat), n < entry.serialize.length →
    ∃ e, deserialize (entry.serialize.take n) = .error e

namespace LogEntry

variable (bincode : Bincode)

def deserialize (data : Bytes) : Except WalError LogEntry :=
  match bincode.deserialize data with
  | .ok entry => .ok entry
  | .error e => .error (.serialization s!"Failed to deserialize entry: {e}")

def deserializeHeader (data : Bytes) : Except WalError LogEntry :=
  if data.length < 24 then .error (.io "Insufficient data for entry header")
  else deserialize bincode data

theorem deserializeHeader_take (entry : LogEntry) :
    ∃ e : String, deserializeHeader bincode (entry.serialize.take 24) =
      .error (.serialization s!"Failed to deserialize entry: {e}") := by
  obtain ⟨e, he⟩ := bincode.truncated entry 24 (by simp; omega)
  refine ⟨e, ?_⟩
  have hlen : (entry.serialize.take 24).length = 24 := by simp; omega
  rw [deserializeHeader, if_neg (by omega), deserialize, he]

end LogEntry

/-! ### A deserializer -/

namespace Bincode

def read (data : Bytes) : Except String LogEntry :=
  if data.length < 39 then .error "io error: unexpected end of file"
  else
    match EntryType.ofVariant (u32.readLe 16 data) with
    | none => .error "invalid value: integer, expected variant index 0 <= i < 3"
    | some entryType =>
      if data.length < 39 + (u64.readLe 31 data).toNat then
        .error "io error: unexpected end of file"
      else .ok
        { sequenceNumber := u64.readLe 0 data
          timestamp := u64.readLe 8 data
          metadata := { entryType, version := u8.readLe 20 data, flags := u16.readLe 21 data }
          payloadLength := u32.readLe 23 data
          checksum := u32.readLe 27 data
          payload := (data.drop 39).take (u64.readLe 31 data).toNat
          payload_lt := by
            have hlt := (u64.readLe 31 data).toNat_lt
            have hle := List.length_take_le (u64.readLe 31 data).toNat (data.drop 39)
            omega }

private theorem read_fixedPart_append (entry : LogEntry) (rest : Bytes) :
    read (entry.fixedPart ++ rest) =
      if rest.length < entry.payload.length then
        .error "io error: unexpected end of file"
      else .ok
        { entry with
          payload := rest.take entry.payload.length
          payload_lt := by
            have hlt := entry.payload_lt
            have hle := List.length_take_le entry.payload.length rest
            omega } := by
  obtain ⟨sequence, timestamp, ⟨entryType, version, flags⟩, payloadLength, checksum,
    payload, hlt⟩ := entry
  generalize hdata : LogEntry.fixedPart _ ++ rest = data
  have hcnt : (UInt64.ofNat payload.length).toNat = payload.length :=
    UInt64.toNat_ofNat_of_lt hlt
  have hsize : data.length = 39 + rest.length := by
    rw [← hdata, List.length_append, LogEntry.length_fixedPart]
  have hrest : data.drop 39 = rest := by
    rw [← hdata]
    exact List.drop_left' (LogEntry.length_fixedPart _)
  simp only [LogEntry.fixedPart] at hdata
  -- each field stands behind the fields before it
  have h0 : u64.readLe 0 data = sequence := by simp [← hdata]
  have h8 : u64.readLe 8 data = timestamp := by
    simp (disch := decide) [← hdata, Word.readLe_skip]
  have h16 : u32.readLe 16 data = entryType.variant := by
    simp (disch := decide) [← hdata, Word.readLe_skip]
  have h20 : u8.readLe 20 data = version := by
    simp (disch := decide) [← hdata, Word.readLe_skip]
  have h21 : u16.readLe 21 data = flags := by
    simp (disch := decide) [← hdata, Word.readLe_skip]
  have h23 : u32.readLe 23 data = payloadLength := by
    simp (disch := decide) [← hdata, Word.readLe_skip]
  have h27 : u32.readLe 27 data = checksum := by
    simp (disch := decide) [← hdata, Word.readLe_skip]
  have h31 : u64.readLe 31 data = .ofNat payload.length := by
    simp (disch := decide) [← hdata, Word.readLe_skip]
  rw [read, if_neg (by omega)]
  simp only [h0, h8, h16, h20, h21, h23, h27, h31, hcnt, hrest, hsize,
    EntryType.ofVariant_variant, Nat.add_lt_add_iff_left]

/-- `bincode` as `read` does it. -/
def fixint : Bincode where
  deserialize := read
  inverse entry := by
    rw [LogEntry.serialize, read_fixedPart_append, if_neg (Nat.lt_irrefl _)]
    simp
  truncated entry n hn := by
    rw [LogEntry.length_serialize] at hn
    refine ⟨"io error: unexpected end of file", ?_⟩
    by_cases hfixed : n < 39
    · rw [read, if_pos (by simp; omega)]
    · rw [LogEntry.serialize, List.take_append, LogEntry.length_fixedPart,
        List.take_of_length_le (by simp; omega), read_fixedPart_append,
        if_pos (by simp; omega)]

end Bincode

end Kaelix.Storage.Wal
