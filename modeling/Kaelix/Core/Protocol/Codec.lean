import Kaelix.Core.Protocol.Frame
import Kaelix.Lib.Loop

/-!
# Streaming encoder and decoder

`FrameEncoder` and `FrameDecoder` of `kaelix-core/src/protocol/codec.rs`.  The encoder emits
single frames and batches of them.  The decoder keeps the bytes of incomplete frames between calls
of `decode_stream` and remembers the size of the frame it waits for; a frame that fails to decode
has left the buffer by then.
-/

namespace Kaelix.Core.Protocol

open Lib Lib.BigEndian

def maxFrameSize : Nat := frameHeaderSize + maxPayloadSize.toNat

def ProtocolError.isCorruption : ProtocolError → Bool
  | .invalidMagic .. => true
  | .checksumMismatch .. => true
  | .invalidFrameType .. => true
  | _ => false

/-! ## The encoder -/

/-- An encoder with a batch. -/
structure FrameEncoder where
  buffer : Bytes
  batch : List Frame
  maxBatchSize : Nat
deriving DecidableEq

namespace FrameEncoder

def new : FrameEncoder := ⟨[], [], 100⟩

def setMaxBatchSize (self : FrameEncoder) (size : Nat) : FrameEncoder :=
  { self with maxBatchSize := size }

section

variable (crc32 : Bytes → Bytes → UInt32)

variable (self : FrameEncoder)

def encode (frame : Frame) : FrameEncoder × Bytes :=
  ({ self with buffer := [] }, frame.serialize crc32)

def flushBatch : FrameEncoder × Bytes :=
  if self.batch.isEmpty then (self, [])
  else
    let buffer := self.batch.foldl
      (fun buffer frame => buffer ++ frame.serialize crc32) []
    ({ self with batch := [], buffer := [] }, buffer)

def addToBatch (frame : Frame) : FrameEncoder × Option Bytes :=
  let self := { self with batch := self.batch ++ [frame] }
  if self.batch.length ≥ self.maxBatchSize then
    let (self, bytes) := self.flushBatch crc32
    (self, some bytes)
  else
    (self, none)

end

end FrameEncoder

/-- The encoder's calls. -/
inductive EncoderCall
  | encode (frame : Frame)
  | addToBatch (frame : Frame)
  | flushBatch
deriving DecidableEq

namespace EncoderCall

/-- The call is about a valid frame. -/
def Valid : EncoderCall → Prop
  | encode frame => frame.Valid
  | addToBatch frame => frame.Valid
  | flushBatch => True

/-- The frames that a list of calls emits: a batch is emitted when it is flushed or
full. -/
def emitted (maxBatchSize : Nat) : List Frame → List EncoderCall → List Frame
  | _, [] => []
  | batch, encode frame :: calls => frame :: emitted maxBatchSize batch calls
  | batch, addToBatch frame :: calls =>
    if batch.length + 1 ≥ maxBatchSize then
      batch ++ frame :: emitted maxBatchSize [] calls
    else emitted maxBatchSize (batch ++ [frame]) calls
  | batch, flushBatch :: calls => batch ++ emitted maxBatchSize [] calls

theorem valid_of_mem_emitted {maxBatchSize : Nat} {batch : List Frame} {calls : List EncoderCall}
    (hbatch : ∀ f ∈ batch, f.Valid) (hcalls : ∀ c ∈ calls, c.Valid) :
    ∀ f ∈ emitted maxBatchSize batch calls, f.Valid := by
  induction calls generalizing batch with
  | nil => simp [emitted]
  | cons c calls ih =>
    have hc := hcalls c (by simp)
    have hrest : ∀ c ∈ calls, c.Valid := fun c hc => hcalls c (by simp [hc])
    cases c with
    | encode =>
      intro f hf
      rcases List.mem_cons.mp hf with rfl | hf
      · exact hc
      · exact ih hbatch hrest f hf
    | addToBatch frame =>
      have hpush : ∀ f ∈ batch ++ [frame], f.Valid := by
        intro f hf
        rcases List.mem_append.mp hf with hf | hf
        · exact hbatch f hf
        · rw [List.mem_singleton.mp hf]
          exact hc
      intro f hf
      rw [emitted] at hf
      split at hf
      · rw [List.append_cons] at hf
        rcases List.mem_append.mp hf with hf | hf
        · exact hpush f hf
        · exact ih (by simp) hrest f hf
      · exact ih hpush hrest f hf
    | flushBatch =>
      intro f hf
      rcases List.mem_append.mp hf with hf | hf
      · exact hbatch f hf
      · exact ih (by simp) hrest f hf

end EncoderCall

namespace FrameEncoder

variable (crc32 : Bytes → Bytes → UInt32)

variable (self : FrameEncoder)

def call : EncoderCall → FrameEncoder × Bytes
  | .encode frame => self.encode crc32 frame
  | .addToBatch frame =>
    let (self, bytes) := self.addToBatch crc32 frame
    (self, bytes.getD [])
  | .flushBatch => self.flushBatch crc32

def emissions (self : FrameEncoder) : List EncoderCall → List Bytes
  | [] => []
  | c :: calls =>
    let (self, bytes) := self.call crc32 c
    bytes :: self.emissions calls

private theorem flushBatch_eq :
    (self.flushBatch crc32).1.batch = [] ∧
      (self.flushBatch crc32).1.maxBatchSize = self.maxBatchSize ∧
      (self.flushBatch crc32).2 =
        self.batch.flatMap (Frame.serialize crc32) := by
  unfold flushBatch
  cases hbatch : self.batch with
  | nil => simp [hbatch]
  | cons =>
    refine ⟨rfl, rfl, ?_⟩
    simp only [List.isEmpty_cons, Bool.false_eq_true, if_false]
    rw [List.foldl_append_eq_append, List.nil_append]
    rfl

theorem flatten_emissions (calls : List EncoderCall) :
    (self.emissions crc32 calls).flatten =
      (EncoderCall.emitted self.maxBatchSize self.batch calls).flatMap
        (Frame.serialize crc32) := by
  induction calls generalizing self with
  | nil => rfl
  | cons c calls ih =>
    rw [emissions, List.flatten_cons, ih]
    cases c with
    | encode => rfl
    | addToBatch frame =>
      obtain ⟨hbatch, hmax, hbytes⟩ := flushBatch_eq crc32
        { self with batch := self.batch ++ [frame] }
      simp only [call, addToBatch, EncoderCall.emitted, List.length_append, List.length_singleton]
      split
      · dsimp only [Option.getD_some]
        rw [hbatch, hmax, hbytes]
        simp
      · rfl
    | flushBatch =>
      obtain ⟨hbatch, hmax, hbytes⟩ := flushBatch_eq crc32 self
      rw [call, hbatch, hmax, hbytes, EncoderCall.emitted, List.flatMap_append]

end FrameEncoder

/-! ## The decoder -/

structure DecoderStats where
  framesDecoded : Nat
  bytesProcessed : Nat
  incompleteFrames : Nat
  corruptedFrames : Nat
  bufferSize : Nat
  peakBufferSize : Nat
deriving DecidableEq

/-- A decoder with what it has not read yet. -/
structure FrameDecoder where
  buffer : Bytes
  frameQueue : List Frame
  expectedFrameSize : Option Nat
  maxFrameSize : Nat
  stats : DecoderStats
deriving DecidableEq

namespace FrameDecoder

def new : FrameDecoder := ⟨[], [], none, Protocol.maxFrameSize, ⟨0, 0, 0, 0, 0, 0⟩⟩

section

variable (self : FrameDecoder)

def nextFrame : FrameDecoder × Option Frame :=
  match self.frameQueue with
  | [] => (self, none)
  | frame :: frameQueue => ({ self with frameQueue }, some frame)

def peekFrameSize : ProtocolResult (Option Nat) :=
  if self.buffer.length < frameHeaderSize then .ok none
  else
    let payloadLen := u32.read 32 self.buffer
    if payloadLen > maxPayloadSize then .error (.payloadTooLarge payloadLen maxPayloadSize)
    else
      let totalSize := frameHeaderSize + payloadLen.toNat
      if totalSize > self.maxFrameSize then
        .error (.frameTooLarge totalSize self.maxFrameSize)
      else .ok (some totalSize)

/-- The bytes from the next magic bytes on, the first byte apart, or none. -/
def resync (buffer : Bytes) : Bytes :=
  match (List.range' 1 (buffer.length - 3 - 1)).find?
      (fun i => (buffer.drop i).take 4 = protocolMagic) with
  | some i => buffer.drop i
  | none => []

def recoverFromCorruption : FrameDecoder :=
  { self with buffer := resync self.buffer }

end

section

variable (crc32 : Bytes → Bytes → UInt32)

section

variable (self : FrameDecoder)

/-- `decode_single_frame`.  The bytes are taken off the buffer before they are decoded. -/
def decodeSingleFrame : FrameDecoder × ProtocolResult Frame :=
  match self.expectedFrameSize with
  | none => (self, .error (.decodingError "Frame size not determined"))
  | some frameSize =>
    let frameData := self.buffer.take frameSize
    ({ self with buffer := self.buffer.drop frameSize },
      Frame.deserialize crc32 frameData)

def frameSize : ProtocolResult (Option Nat) :=
  match self.expectedFrameSize with
  | some size => .ok (some size)
  | none => self.peekFrameSize

/-- The second half of a round: the frame is decoded when it is complete. -/
def decodeExpected (framesDecoded expectedSize : Nat) :
    (FrameDecoder × Nat) ⊕ (FrameDecoder × ProtocolResult Nat) :=
  if self.buffer.length ≥ expectedSize then
    match self.decodeSingleFrame crc32 with
    | (self, .ok frame) =>
      .inl ({ self with
        frameQueue := self.frameQueue ++ [frame]
        stats := { self.stats with framesDecoded := self.stats.framesDecoded + 1 }
        expectedFrameSize := none }, framesDecoded + 1)
    | (self, .error e) =>
      if e.isCorruption then
        let self := { self with
          stats := { self.stats with corruptedFrames := self.stats.corruptedFrames + 1 } }
        .inl ({ self.recoverFromCorruption with expectedFrameSize := none }, framesDecoded)
      else .inr (self, .error e)
  else
    .inr ({ self with
      stats := { self.stats with incompleteFrames := self.stats.incompleteFrames + 1 } },
      .ok framesDecoded)

end

/-- A round of the loop of `decode_stream`, with the number of frames decoded so far. -/
def decodeRound : FrameDecoder × Nat →
    (FrameDecoder × Nat) ⊕ (FrameDecoder × ProtocolResult Nat)
  | (self, framesDecoded) =>
    if self.buffer.length < frameHeaderSize then .inr (self, .ok framesDecoded)
    else
      match self.frameSize with
      | .error e => .inr (self, .error e)
      | .ok none => .inr (self, .ok framesDecoded)
      | .ok (some size) =>
        { self with expectedFrameSize := some size }.decodeExpected crc32
          framesDecoded size

end

end FrameDecoder

/-! ## What a round does -/

/-- What the front of the buffer is. -/
inductive Attempt
  | short
  | refused (e : ProtocolError)
  | incomplete (size : Nat)
  | accepted (size : Nat) (frame : Frame)
  | rejected (size : Nat) (e : ProtocolError)
deriving DecidableEq

/-- The size that an attempt reads: the remembered one, or else the one in the header. -/
def settledSize (limit : Nat) (expected : Option Nat) (data : Bytes) : ProtocolResult Nat :=
  match expected with
  | some size => .ok size
  | none =>
    if u32.read 32 data > maxPayloadSize then
      .error (.payloadTooLarge (u32.read 32 data) maxPayloadSize)
    else if frameHeaderSize + Frame.declaredLen data > limit then
      .error (.frameTooLarge (frameHeaderSize + Frame.declaredLen data) limit)
    else .ok (frameHeaderSize + Frame.declaredLen data)

section

variable (crc32 : Bytes → Bytes → UInt32)

def attemptSize (size : Nat) (data : Bytes) : Attempt :=
  if data.length < size then .incomplete size
  else
    match Frame.deserialize crc32 (data.take size) with
    | .ok frame => .accepted size frame
    | .error e => .rejected size e

/-- One look at the front of the buffer. -/
def attempt (limit : Nat) (expected : Option Nat) (data : Bytes) : Attempt :=
  if data.length < frameHeaderSize then .short
  else
    match settledSize limit expected data with
    | .error e => .refused e
    | .ok size => attemptSize crc32 size data

/-- What each outcome of an attempt says about the bytes. -/
def Finds (limit : Nat) (expected : Option Nat) (data : Bytes) : Attempt → Prop
  | .short => data.length < frameHeaderSize
  | .refused e => frameHeaderSize ≤ data.length ∧ settledSize limit expected data = .error e
  | .incomplete size =>
    frameHeaderSize ≤ data.length ∧ settledSize limit expected data = .ok size ∧
      data.length < size
  | .accepted size f =>
    frameHeaderSize ≤ data.length ∧ settledSize limit expected data = .ok size ∧
      size ≤ data.length ∧ Frame.deserialize crc32 (data.take size) = .ok f
  | .rejected size e =>
    frameHeaderSize ≤ data.length ∧ settledSize limit expected data = .ok size ∧
      size ≤ data.length ∧ Frame.deserialize crc32 (data.take size) = .error e

variable {crc32} {limit size : Nat} {expected : Option Nat} {data : Bytes}

theorem attempt_eq_iff {a : Attempt} :
    attempt crc32 limit expected data = a ↔
      Finds crc32 limit expected data a := by
  unfold attempt attemptSize
  cases a <;> simp only [Finds] <;> grind

theorem size_of_accepted {f : Frame} (h : attempt crc32 limit expected data = .accepted size f) :
    size ≤ data.length ∧ frameHeaderSize + f.payload.length ≤ size := by
  obtain ⟨-, -, hlen, hf⟩ := attempt_eq_iff.mp h
  have hacc := Frame.accepted_of_deserialize hf
  have hcomp := hacc.complete
  have hpay : f.payload.length ≤ Frame.declaredLen (data.take size) := by
    rw [hacc.frame]
    exact List.length_take_le _ _
  rw [List.length_take_of_le hlen] at hcomp
  exact ⟨hlen, by omega⟩

theorem size_of_corrupted {e : ProtocolError}
    (h : attempt crc32 limit expected data = .rejected size e)
    (he : e.isCorruption = true) : size ≤ data.length ∧ frameHeaderSize ≤ size := by
  obtain ⟨-, -, hlen, hf⟩ := attempt_eq_iff.mp h
  refine ⟨hlen, ?_⟩
  by_contra hsh
  rw [Frame.deserialize, if_pos (by rw [List.length_take_of_le hlen]; omega)] at hf
  cases hf
  cases he

end

namespace FrameDecoder

section

variable (self : FrameDecoder)

def accept (size : Nat) (frame : Frame) : FrameDecoder :=
  { self with
    buffer := self.buffer.drop size
    frameQueue := self.frameQueue ++ [frame]
    expectedFrameSize := none
    stats := { self.stats with framesDecoded := self.stats.framesDecoded + 1 } }

def skip (size : Nat) : FrameDecoder :=
  { self with
    buffer := resync (self.buffer.drop size)
    expectedFrameSize := none
    stats := { self.stats with corruptedFrames := self.stats.corruptedFrames + 1 } }

/-- A frame that fails otherwise is dropped; its size stays the expected one. -/
def fail (size : Nat) : FrameDecoder :=
  { self with buffer := self.buffer.drop size, expectedFrameSize := some size }

def await (size : Nat) : FrameDecoder :=
  { self with
    expectedFrameSize := some size
    stats := { self.stats with incompleteFrames := self.stats.incompleteFrames + 1 } }

def advance (framesDecoded : Nat) :
    Attempt → (FrameDecoder × Nat) ⊕ (FrameDecoder × ProtocolResult Nat)
  | .short => .inr (self, .ok framesDecoded)
  | .refused e => .inr (self, .error e)
  | .incomplete size => .inr (self.await size, .ok framesDecoded)
  | .accepted size frame => .inl (self.accept size frame, framesDecoded + 1)
  | .rejected size e =>
    if e.isCorruption then .inl (self.skip size, framesDecoded)
    else .inr (self.fail size, .error e)

end

section

variable (crc32 : Bytes → Bytes → UInt32)

section

variable (self : FrameDecoder)

def front : Attempt :=
  attempt crc32 self.maxFrameSize self.expectedFrameSize self.buffer

private theorem decodeExpected_eq (framesDecoded size : Nat) :
    { self with expectedFrameSize := some size }.decodeExpected crc32
        framesDecoded size =
      self.advance framesDecoded (attemptSize crc32 size self.buffer) := by
  unfold decodeExpected attemptSize
  by_cases hlen : self.buffer.length < size
  · rw [if_neg (Nat.not_le.mpr hlen), if_pos hlen]
    rfl
  · rw [if_pos (Nat.le_of_not_lt hlen), if_neg hlen]
    simp only [decodeSingleFrame]
    cases Frame.deserialize crc32 (self.buffer.take size) <;> rfl

private theorem decodeRound_eq (framesDecoded : Nat) :
    decodeRound crc32 (self, framesDecoded) =
      self.advance framesDecoded (self.front crc32) := by
  unfold decodeRound front attempt
  dsimp only
  by_cases hlen : self.buffer.length < frameHeaderSize
  · rw [if_pos hlen, if_pos hlen]
    rfl
  have hsize : self.frameSize =
      (settledSize self.maxFrameSize self.expectedFrameSize self.buffer).map some := by
    unfold frameSize settledSize
    cases self.expectedFrameSize with
    | some => rfl
    | none =>
      rw [peekFrameSize, if_neg hlen]
      dsimp only
      unfold Frame.declaredLen
      split
      · rfl
      · split <;> rfl
  rw [if_neg hlen, if_neg hlen, hsize]
  cases settledSize self.maxFrameSize self.expectedFrameSize self.buffer with
  | error => rfl
  | ok size => exact decodeExpected_eq crc32 self framesDecoded size

end

variable {crc32} {self : FrameDecoder} {framesDecoded : Nat}

theorem decodeRound_next {s : FrameDecoder × Nat}
    (h : decodeRound crc32 (self, framesDecoded) = .inl s) :
    (∃ size f, self.front crc32 = .accepted size f ∧
        s = (self.accept size f, framesDecoded + 1)) ∨
      ∃ size e, self.front crc32 = .rejected size e ∧ e.isCorruption = true ∧
        s = (self.skip size, framesDecoded) := by
  rw [decodeRound_eq] at h
  cases hfront : self.front crc32 with
  | short | refused | incomplete => rw [hfront] at h; cases h
  | accepted size f =>
    rw [hfront] at h
    cases h
    exact .inl ⟨size, f, rfl, rfl⟩
  | rejected size e =>
    rw [hfront, advance] at h
    split at h
    · next he =>
        cases h
        exact .inr ⟨size, e, rfl, he, rfl⟩
    · cases h

theorem decodeRound_done {r : FrameDecoder × ProtocolResult Nat}
    (h : decodeRound crc32 (self, framesDecoded) = .inr r) :
    (self.front crc32 = .short ∧ r = (self, .ok framesDecoded)) ∨
      (∃ e, self.front crc32 = .refused e ∧ r = (self, .error e)) ∨
      (∃ size, self.front crc32 = .incomplete size ∧
        r = (self.await size, .ok framesDecoded)) ∨
      ∃ size e, self.front crc32 = .rejected size e ∧ e.isCorruption = false ∧
        r = (self.fail size, .error e) := by
  rw [decodeRound_eq] at h
  cases hfront : self.front crc32 with
  | short =>
    rw [hfront] at h
    exact .inl ⟨rfl, (Sum.inr.inj h).symm⟩
  | refused e =>
    rw [hfront] at h
    exact .inr (.inl ⟨e, rfl, (Sum.inr.inj h).symm⟩)
  | incomplete size =>
    rw [hfront] at h
    exact .inr (.inr (.inl ⟨size, rfl, (Sum.inr.inj h).symm⟩))
  | accepted => rw [hfront] at h; cases h
  | rejected size e =>
    rw [hfront, advance] at h
    split at h
    · cases h
    · next he =>
        exact .inr (.inr (.inr ⟨size, e, rfl, Bool.eq_false_iff.mpr he, (Sum.inr.inj h).symm⟩))

end

private theorem length_resync_le (buffer : Bytes) : (resync buffer).length ≤ buffer.length := by
  unfold resync
  split
  · rw [List.length_drop]
    omega
  · exact Nat.zero_le _

variable (crc32 : Bytes → Bytes → UInt32)

theorem decodeRound_decreases (s s' : FrameDecoder × Nat) (h : decodeRound crc32 s = .inl s') :
    s'.1.buffer.length < s.1.buffer.length := by
  obtain ⟨self, n⟩ := s
  have hpos : 0 < frameHeaderSize := by decide
  obtain ⟨size, f, hfront, rfl⟩ | ⟨size, e, hfront, he, rfl⟩ := decodeRound_next h
  · obtain ⟨hlen, hsize⟩ := size_of_accepted hfront
    simp only [accept, List.length_drop]
    omega
  · obtain ⟨hlen, hsize⟩ := size_of_corrupted hfront he
    have := length_resync_le (self.buffer.drop size)
    rw [List.length_drop] at this
    simp only [skip]
    omega

/-- `decode_stream`: the decoder afterwards, and the number of frames decoded. -/
def decodeStream (self : FrameDecoder) (data : Bytes) : FrameDecoder × ProtocolResult Nat :=
  let buffer := self.buffer ++ data
  let stats := { self.stats with
    bytesProcessed := self.stats.bytesProcessed + data.length
    bufferSize := buffer.length
    peakBufferSize := max self.stats.peakBufferSize buffer.length }
  Loop.run (decodeRound crc32) (fun s => s.1.buffer.length)
    (decodeRound_decreases crc32) ({ self with buffer, stats }, 0)

end FrameDecoder

end Kaelix.Core.Protocol
