import Kaelix.Lib.ByteOrder
import Kaelix.Lib.HashMap

/-!
# Storage entries

`StorageEntry` of `segments/entry.rs`: its fields, its size estimate, its byte layout and its
integrity check.
-/

namespace Kaelix.Storage

open Lib Lib.BigEndian

abbrev Bytes := List UInt8

/-- The errors of `StorageError` that the segments return. -/
inductive StorageError where
  | io (message : String)
  | notFound (message : String)
  | invalidOperation (message : String)
  deriving DecidableEq

/-- An error, or a panic. -/
inductive Failure where
  | error (e : StorageError)
  | panic (message : String)
  deriving DecidableEq

abbrev Outcome := Except Failure

def ioError {α : Type} (message : String) : Outcome α := .error (.error (.io message))

def invalidOperation {α : Type} (message : String) : Outcome α :=
  .error (.error (.invalidOperation message))

namespace Segments

inductive CompressionType where
  | none
  | lz4
  | zstd
  | gzip
  deriving DecidableEq

structure StorageEntryMetadata where
  timestamp : UInt64
  compression : Option CompressionType := none
  flags : UInt32 := 0
  attributes : HashMap String String := ∅
  deriving DecidableEq

/-- An entry of a segment. -/
structure StorageEntry where
  sequence : UInt64
  metadata : StorageEntryMetadata
  payload : Bytes
  deriving DecidableEq

namespace StorageEntry

def new (sequence timestamp : UInt64) (payload : Bytes) : StorageEntry :=
  { sequence, metadata := { timestamp }, payload }

section

variable (entry : StorageEntry)

def size : Nat :=
  let baseSize := 16 + entry.payload.length
  let metadataOverhead := 32
  let attributesOverhead :=
    (entry.metadata.attributes.entries.map fun kv =>
      kv.1.utf8ByteSize + kv.2.utf8ByteSize + 8).sum
  baseSize + metadataOverhead + attributesOverhead

def header : Bytes :=
  u64.putLe entry.sequence ++ u64.putLe entry.metadata.timestamp ++
    u64.putLe (.ofNat entry.payload.length)

def serialize : Bytes := entry.header ++ entry.payload

end

def deserialize (data : Bytes) : Outcome StorageEntry :=
  if data.length < 24 then ioError "Insufficient data for entry header"
  else
    let sequence := u64.readLe 0 data
    let timestamp := u64.readLe 8 data
    let payloadLen := (u64.readLe 16 data).toNat
    -- `24 + payload_len` overflows, or the slice `data[24..]` ends before it starts
    if 2 ^ 64 ≤ 24 + payloadLen then .error (.panic "attempt to add with overflow")
    else if data.length < 24 + payloadLen then ioError "Insufficient data for payload"
    else .ok (new sequence timestamp ((data.drop 24).take payloadLen))

variable (entry : StorageEntry)

def validate : Outcome Unit :=
  if entry.sequence = 0 then invalidOperation "Invalid sequence number: 0"
  else if entry.metadata.timestamp = 0 then invalidOperation "Invalid timestamp: 0"
  else if entry.payload.length > 100 * 1024 * 1024 then invalidOperation "Payload too large"
  else .ok ()

/-- What the byte layout keeps of an entry. -/
def stored : StorageEntry :=
  new entry.sequence entry.metadata.timestamp entry.payload

@[simp] theorem length_header (entry : StorageEntry) : entry.header.length = 24 := by
  simp [header]

@[simp] theorem length_serialize (entry : StorageEntry) :
    entry.serialize.length = 24 + entry.payload.length := by
  simp [serialize]

variable (rest : Bytes)

private theorem readLe_header_sequence : u64.readLe 0 (entry.header ++ rest) = entry.sequence := by
  simp [header]

private theorem readLe_header_timestamp :
    u64.readLe 8 (entry.header ++ rest) = entry.metadata.timestamp := by
  simp (disch := decide) [header, Word.readLe_skip]

private theorem readLe_header_payloadLen :
    u64.readLe 16 (entry.header ++ rest) = .ofNat entry.payload.length := by
  simp (disch := decide) [header, Word.readLe_skip]

theorem readLe_header_high :
    u32.readLe 20 entry.header = .ofNat ((UInt64.ofNat entry.payload.length).toNat / 2 ^ 32) := by
  have hdrop : entry.header.drop 20 = (u64.putLe (.ofNat entry.payload.length) ++ []).drop 4 := by
    rw [header, List.append_nil, List.drop_append]
    simp
  rw [Word.readLe, hdrop]
  exact u32_readLe_u64_high _ []

section

variable (h : 24 + entry.payload.length < 2 ^ 64)
include h

private theorem deserialize_header_append (rest : Bytes) :
    deserialize (entry.header ++ rest) =
      if rest.length < entry.payload.length then ioError "Insufficient data for payload"
      else .ok (new entry.sequence entry.metadata.timestamp
        (rest.take entry.payload.length)) := by
  have hlen : (UInt64.ofNat entry.payload.length).toNat = entry.payload.length :=
    UInt64.toNat_ofNat_of_lt (show _ < 2 ^ 64 by omega)
  have hdrop : (entry.header ++ rest).drop 24 = rest := List.drop_left' (by simp)
  rw [deserialize, readLe_header_sequence, readLe_header_timestamp,
    readLe_header_payloadLen, hlen, hdrop, if_neg (by simp)]
  dsimp only
  rw [if_neg (by omega), List.length_append, length_header]
  simp only [Nat.add_lt_add_iff_left]

theorem deserialize_serialize : deserialize entry.serialize = .ok entry.stored := by
  rw [serialize, deserialize_header_append entry h, if_neg (Nat.lt_irrefl _), List.take_length]
  rfl

theorem deserialize_header :
    deserialize entry.header =
      if entry.payload = [] then .ok entry.stored
      else ioError "Insufficient data for payload" := by
  have hhdr := deserialize_header_append entry h []
  rw [List.append_nil, List.length_nil, List.take_nil] at hhdr
  rw [hhdr]
  by_cases hemp : entry.payload = []
  · rw [if_neg (by simp [hemp]), if_pos hemp, stored, hemp]
  · rw [if_pos (List.length_pos_iff.mpr hemp), if_neg hemp]

end

theorem validate_stored : entry.stored.validate = entry.validate := rfl

theorem payload_le_of_validate {entry : StorageEntry} (h : entry.validate = .ok ()) :
    entry.payload.length ≤ 100 * 1024 * 1024 := by
  unfold validate at h
  split at h
  · cases h
  · split at h
    · cases h
    · split at h
      · cases h
      · omega

end StorageEntry

end Segments

end Kaelix.Storage
