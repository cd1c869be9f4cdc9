import Kaelix.Lib.BloomFilter
import Kaelix.Lib.HashMap
import Kaelix.Lib.Queues
import Kaelix.Lib.History

/-!
# The stream registry

`StreamRegistry` of `multiplexing/registry.rs`, with every call run to its end before the
next one.  The hash functions are arbitrary.  Times are in nanoseconds.  Metrics, the memory
pool, and the atomics of the metadata are left out, as these calls do not read them; so is the
closing of metadata that was removed.
-/

namespace Kaelix.Core.Multiplexing

open Lib Lib.BloomFilter

inductive MultiplexerError where
  | stream (message : String)
  | routing (message : String)
  | backpressure (message : String)
  | resourceExhausted (message : String)
  | configuration (message : String)
  | network (message : String)
  | system (message : String)
  | internal (message : String)
  deriving DecidableEq

inductive StreamPriority where
  | critical | high | medium | low | background
  deriving DecidableEq

/-- What is kept of a stream. -/
structure StreamMetadata where
  streamId : UInt64
  priority : StreamPriority
  bufferCapacity : Nat
  createdAt : Nat
  lastActivity : Nat
  topics : List String
  deriving DecidableEq

def StreamMetadata.new (streamId : UInt64) (priority : StreamPriority)
    (bufferCapacity now : Nat) : StreamMetadata :=
  { streamId, priority, bufferCapacity, createdAt := now, lastActivity := now, topics := [] }

structure RegistryConfig where
  maxStreams : Nat
  enableBloomFilter : Bool
  streamTimeoutMs : Nat
  deriving DecidableEq

def RegistryConfig.highPerformance : RegistryConfig :=
  { maxStreams := 10000000, enableBloomFilter := true, streamTimeoutMs := 300000 }

def RegistryConfig.memoryOptimized : RegistryConfig :=
  { maxStreams := 1000000, enableBloomFilter := false, streamTimeoutMs := 60000 }

/-- The hash of a stream identifier, and that of an identifier and a seed. -/
structure Hashes where
  stream : UInt64 → UInt64
  seeded : UInt64 → Nat → UInt64

def shardCount : Nat := 64

def bloomFilterSize : Nat := 1024 * 1024 * 8

def bloomFilterWords : Nat := (bloomFilterSize + 63) / 64

private theorem bloomFilterWords_pos : 0 < bloomFilterWords := Nat.succ_pos 131071

/-- The filter of registered streams. -/
structure StreamFilter where
  bits : Bits bloomFilterWords
  hashFunctions : Nat

namespace StreamFilter

def new : StreamFilter := { bits := fun _ => 0#64, hashFunctions := 3 }

section

variable (hashes : Hashes)
include hashes

def hash (item : UInt64) (seed : Nat) : Nat :=
  (hashes.seeded item seed).toNat % bloomFilterSize

def probe (item : UInt64) (seed : Nat) : Fin bloomFilterWords × Fin 64 :=
  (⟨hash hashes item seed / 64 % bloomFilterWords, Nat.mod_lt _ bloomFilterWords_pos⟩,
    ⟨hash hashes item seed % 64, Nat.mod_lt _ (Nat.succ_pos 63)⟩)

variable (filter : StreamFilter)

def probes (item : UInt64) : List (Fin bloomFilterWords × Fin 64) :=
  (List.range filter.hashFunctions).map (probe hashes item)

def insert (item : UInt64) : StreamFilter :=
  { filter with bits := setAll filter.bits (filter.probes hashes item) }

/-- False only for streams that are not there. -/
def mightContain (item : UInt64) : Bool :=
  hasAll filter.bits (filter.probes hashes item)

theorem mightContain_insert (item : UInt64) :
    (filter.insert hashes item).mightContain hashes item :=
  hasAll_setAll filter.bits (filter.probes hashes item)

end

theorem mightContain_insert_of_mightContain {hashes : Hashes} {filter : StreamFilter}
    (item : UInt64) {other : UInt64} (h : filter.mightContain hashes other) :
    (filter.insert hashes item).mightContain hashes other :=
  hasAll_setAll_of_hasAll (filter.probes hashes item) h

end StreamFilter

/-- The shards, the filter and the count. -/
structure StreamRegistry where
  shards : Fin shardCount → HashMap UInt64 StreamMetadata
  bloomFilter : Option StreamFilter
  config : RegistryConfig
  streamCount : Nat

namespace StreamRegistry

def new (config : RegistryConfig) : StreamRegistry :=
  { shards := fun _ => ∅
    bloomFilter := if config.enableBloomFilter then some .new else none
    config
    streamCount := 0 }

variable (hashes : Hashes)

def shardForStream (streamId : UInt64) : Fin shardCount :=
  ⟨(hashes.stream streamId).toNat % shardCount, Nat.mod_lt _ (Nat.succ_pos 63)⟩

variable (r : StreamRegistry) (streamId : UInt64)

def getStreamMetadata : Option StreamMetadata :=
  (r.shards (shardForStream hashes streamId)).lookup streamId

def insertAt (shard : Fin shardCount) (streamId : UInt64)
    (metadata : StreamMetadata) : StreamRegistry :=
  { r with
    shards := Function.update r.shards shard ((r.shards shard).insert streamId metadata) }

def eraseAt (shard : Fin shardCount) (streamId : UInt64) : StreamRegistry :=
  { r with
    shards := Function.update r.shards shard ((r.shards shard).erase streamId) }

/-- The end of `register_stream`, after the look at the filter.  A duplicate is found by the
entry that the new one replaced. -/
def storeStream (metadata : StreamMetadata) : Except MultiplexerError Unit × StreamRegistry :=
  let shard := shardForStream hashes streamId
  match (r.shards shard).lookup streamId with
  | some _ =>
    (.error (.stream s!"Stream already exists: {streamId}"), r.insertAt shard streamId metadata)
  | none =>
    (.ok (), { r.insertAt shard streamId metadata with streamCount := r.streamCount + 1 })

/-- Refused if the registry is full or has the stream. -/
def registerStream (metadata : StreamMetadata) : Except MultiplexerError Unit × StreamRegistry :=
  if r.streamCount ≥ r.config.maxStreams then
    (.error (.resourceExhausted
      s!"Maximum streams exceeded: {r.streamCount}/{r.config.maxStreams}"), r)
  else
    match r.bloomFilter with
    | some filter =>
      if filter.mightContain hashes streamId then
        if (r.getStreamMetadata hashes streamId).isSome then
          (.error (.stream s!"Stream already exists: {streamId}"), r)
        else r.storeStream hashes streamId metadata
      else
        { r with bloomFilter := some (filter.insert hashes streamId) }.storeStream hashes
          streamId metadata
    | none => r.storeStream hashes streamId metadata

def unregisterStream : Except MultiplexerError Unit × StreamRegistry :=
  let shard := shardForStream hashes streamId
  match (r.shards shard).lookup streamId with
  | some _ => (.ok (), { r.eraseAt shard streamId with streamCount := r.streamCount - 1 })
  | none => (.error (.stream s!"Stream not found: {streamId}"), r)

def stale (config : RegistryConfig) (now : Nat) (metadata : StreamMetadata) : Bool :=
  decide (now - metadata.lastActivity > config.streamTimeoutMs * 1000000)

def keysToRemove (config : RegistryConfig) (now : Nat) (m : HashMap UInt64 StreamMetadata) :
    List UInt64 :=
  (m.entries.filter fun entry => stale config now entry.2).map Sigma.fst

/-- One round of the inner loop of `cleanup_inactive_streams`, with the number of streams that
were cleaned up. -/
def cleanupStream (shard : Fin shardCount) (cleaned : Nat × StreamRegistry)
    (streamId : UInt64) : Nat × StreamRegistry :=
  match (cleaned.2.shards shard).lookup streamId with
  | some _ =>
    (cleaned.1 + 1,
      { cleaned.2.eraseAt shard streamId with streamCount := cleaned.2.streamCount - 1 })
  | none => cleaned

def cleanupShard (now : Nat) (cleaned : Nat × StreamRegistry) (shard : Fin shardCount) :
    Nat × StreamRegistry :=
  (keysToRemove cleaned.2.config now (cleaned.2.shards shard)).foldl (cleanupStream shard) cleaned

/-- Removes the streams without recent activity. -/
def cleanupInactiveStreams (now : Nat) : Nat × StreamRegistry :=
  if r.config.streamTimeoutMs = 0 then (0, r)
  else (List.finRange shardCount).foldl (cleanupShard now) (0, r)

end StreamRegistry

/-- The registry's calls. -/
inductive RegistryCall where
  | registerStream (streamId : UInt64) (metadata : StreamMetadata)
  | getStreamMetadata (streamId : UInt64)
  | unregisterStream (streamId : UInt64)
  | cleanupInactiveStreams (now : Nat)
  | activeStreamCount
  deriving DecidableEq

/-- What they answer. -/
inductive RegistryReply where
  | result (result : Except MultiplexerError Unit)
  | metadata (metadata : Option StreamMetadata)
  | number (n : Nat)

def StreamRegistry.respond (hashes : Hashes) (r : StreamRegistry) :
    RegistryCall → RegistryReply × StreamRegistry
  | .registerStream streamId metadata =>
    ((.result (r.registerStream hashes streamId metadata).1),
      (r.registerStream hashes streamId metadata).2)
  | .getStreamMetadata streamId => (.metadata (r.getStreamMetadata hashes streamId), r)
  | .unregisterStream streamId =>
    (.result (r.unregisterStream hashes streamId).1, (r.unregisterStream hashes streamId).2)
  | .cleanupInactiveStreams now =>
    (.number (r.cleanupInactiveStreams now).1, (r.cleanupInactiveStreams now).2)
  | .activeStreamCount => (.number r.streamCount, r)

end Kaelix.Core.Multiplexing
