import Kaelix.Core.Protocol.Streaming
import Mathlib.Data.List.Forall2

/-!
# The decoder on hostile input

What holds of a decoder whatever bytes it is given: no access is out of bounds, every call ends,
and the frames come from parts of the input that follow each other.
-/

namespace Kaelix.Core.Protocol

open Lib Lib.BigEndian Lib.Access

/-! ## Checked accesses -/

section

variable (crc32 : Bytes → Bytes → UInt32)

def Frame.deserializeChecked (data : Bytes) : Option (ProtocolResult Frame) :=
  if data.length < frameHeaderSize then
    some (.error (.bufferTooSmall frameHeaderSize data.length))
  else do
    let (magic, buf) ← splitTo 4 data
    if magic ≠ protocolMagic then some (.error (.invalidMagic protocolMagic magic))
    else do
      let (version, buf) ← u8.take buf
      if version ≠ protocolVersion then
        some (.error (.unsupportedVersion version protocolVersion))
      else do
        let (flags, buf) ← u16.take buf
        let (_reserved1, buf) ← u8.take buf
        let (streamId, buf) ← u32.take buf
        let (_reserved2, buf) ← u32.take buf
        let (sequence, buf) ← u64.take buf
        let (timestamp, buf) ← u64.take buf
        let (payloadLen, buf) ← u32.take buf
        if payloadLen > maxPayloadSize then
          some (.error (.payloadTooLarge payloadLen maxPayloadSize))
        else do
          let (expectedChecksum, buf) ← u32.take buf
          if buf.length < payloadLen.toNat then
            some (.error (.incompleteFrame (frameHeaderSize + payloadLen.toNat)
              (frameHeaderSize + buf.length)))
          else do
            let payload ← if payloadLen = 0 then some [] else slice 0 payloadLen.toNat buf
            let headerWithoutChecksum ← slice 0 36 data
            let actualChecksum := crc32 headerWithoutChecksum payload
            if expectedChecksum ≠ actualChecksum then
              some (.error (.checksumMismatch expectedChecksum actualChecksum))
            else
              match (FrameFlags.mk flags).frameType with
              | .error e => some (.error e)
              | .ok _frameType => some (.ok ⟨⟨flags⟩, streamId, sequence, timestamp, payload⟩)

theorem Frame.deserializeChecked_eq (data : Bytes) :
    deserializeChecked crc32 data = some (deserialize crc32 data) := by
  unfold deserializeChecked deserialize
  by_cases hsh : data.length < frameHeaderSize
  · rw [if_pos hsh, if_pos hsh]
  have hlen : 40 ≤ data.length := Nat.le_of_not_lt hsh
  have hhdr : slice 0 36 data = some (data.take 36) := by
    rw [slice_of_le (by omega) (by omega)]
    rfl
  rw [if_neg hsh, if_neg hsh, splitTo_of_le (by omega), hhdr]
  simp only [Option.bind_eq_bind, Option.bind_some]
  simp only [u8.take_drop 4 (show 4 + u8.bytes ≤ data.length by simp; omega),
    u16.take_drop 5 (show 5 + u16.bytes ≤ data.length by simp; omega),
    u8.take_drop 7 (show 7 + u8.bytes ≤ data.length by simp; omega),
    u32.take_drop 8 (show 8 + u32.bytes ≤ data.length by simp; omega),
    u32.take_drop 12 (show 12 + u32.bytes ≤ data.length by simp; omega),
    u64.take_drop 16 (show 16 + u64.bytes ≤ data.length by simp; omega),
    u64.take_drop 24 (show 24 + u64.bytes ≤ data.length by simp; omega),
    u32.take_drop 32 (show 32 + u32.bytes ≤ data.length by simp; omega),
    u32.take_drop 36 (show 36 + u32.bytes ≤ data.length by simp; omega),
    Word.get_drop, u8_bytes, u16_bytes, u32_bytes, u64_bytes, Nat.reduceAdd,
    Option.bind_some, apply_ite some]
  refine ite_congr rfl (fun _ => rfl) fun _ => ?_
  refine ite_congr rfl (fun _ => rfl) fun _ => ?_
  refine ite_congr rfl (fun _ => rfl) fun _ => ?_
  refine ite_congr rfl (fun _ => rfl) fun hcomp => ?_
  rw [slice_of_le (Nat.zero_le _) (Nat.le_of_not_lt hcomp)]
  by_cases hzero : u32.read 32 data = 0
  · simp only [if_pos hzero]
    cases (FrameFlags.mk (u16.read 5 data)).frameType <;> rfl
  · simp only [if_neg hzero, Option.bind_some, List.drop_zero, Nat.sub_zero]
    cases (FrameFlags.mk (u16.read 5 data)).frameType <;> rfl

namespace FrameDecoder

section

variable (self : FrameDecoder)

def peekFrameSizeChecked : Option (ProtocolResult (Option Nat)) :=
  if self.buffer.length < frameHeaderSize then some (.ok none)
  else if self.buffer.length < 32 + 4 then some (.ok none)
  else do
    let byte0 ← index 32 self.buffer
    let byte1 ← index (32 + 1) self.buffer
    let byte2 ← index (32 + 2) self.buffer
    let byte3 ← index (32 + 3) self.buffer
    let payloadLen := u32.ofNat (ofBytes [byte0, byte1, byte2, byte3])
    if payloadLen > maxPayloadSize then
      some (.error (.payloadTooLarge payloadLen maxPayloadSize))
    else
      let totalSize := frameHeaderSize + payloadLen.toNat
      if totalSize > self.maxFrameSize then
        some (.error (.frameTooLarge totalSize self.maxFrameSize))
      else some (.ok (some totalSize))

private theorem peekFrameSizeChecked_eq : self.peekFrameSizeChecked = some self.peekFrameSize := by
  unfold peekFrameSizeChecked peekFrameSize
  by_cases hsh : self.buffer.length < frameHeaderSize
  · rw [if_pos hsh, if_pos hsh]
  have hlen : 40 ≤ self.buffer.length := Nat.le_of_not_lt hsh
  obtain ⟨a, b, c, d, ha, hb, hc, hd, hbytes⟩ :=
    index_four (show 32 + 4 ≤ self.buffer.length by omega)
  have hread : u32.read 32 self.buffer = u32.ofNat (ofBytes [a, b, c, d]) := by
    rw [Word.read, Word.get, u32_bytes, hbytes]
  rw [if_neg hsh, if_neg hsh, if_neg (by omega), ha, hb, hc, hd, hread]
  simp only [Option.bind_eq_bind, Option.bind_some, apply_ite some]

def frameSizeChecked : Option (ProtocolResult (Option Nat)) :=
  match self.expectedFrameSize with
  | some size => some (.ok (some size))
  | none => self.peekFrameSizeChecked

theorem frameSizeChecked_eq : self.frameSizeChecked = some self.frameSize := by
  unfold frameSizeChecked frameSize
  cases self.expectedFrameSize with
  | some => rfl
  | none => exact self.peekFrameSizeChecked_eq

def resyncScan (buffer : Bytes) : List Nat → Option Bytes
  | [] => some []
  | i :: positions => do
    let window ← slice i (i + 4) buffer
    if window = protocolMagic then Access.advance i buffer
    else resyncScan buffer positions

def recoverFromCorruptionChecked : Option FrameDecoder := do
  let buffer ← resyncScan self.buffer (List.range' 1 (self.buffer.length - 3 - 1))
  some { self with buffer }

private theorem resyncScan_eq (buffer : Bytes) (positions : List Nat)
    (h : ∀ i ∈ positions, i + 4 ≤ buffer.length) :
    resyncScan buffer positions =
      some (match positions.find? (fun i => (buffer.drop i).take 4 = protocolMagic) with
        | some i => buffer.drop i
        | none => []) := by
  induction positions with
  | nil => rfl
  | cons i positions ih =>
    have hi := h i List.mem_cons_self
    have hwin : slice i (i + 4) buffer = some ((buffer.drop i).take 4) := by
      rw [slice_of_le (by omega) hi, Nat.add_sub_cancel_left]
    rw [resyncScan, hwin, List.find?_cons]
    simp only [Option.bind_eq_bind, Option.bind_some]
    by_cases hmagic : (buffer.drop i).take 4 = protocolMagic
    · rw [if_pos hmagic, advance_of_le (by omega), decide_eq_true hmagic]
    · rw [if_neg hmagic, decide_eq_false hmagic]
      exact ih fun j hj => h j (List.mem_cons_of_mem i hj)

private theorem recoverFromCorruptionChecked_eq :
    self.recoverFromCorruptionChecked = some self.recoverFromCorruption := by
  unfold recoverFromCorruptionChecked recoverFromCorruption
  rw [resyncScan_eq]
  · rfl
  · intro i hi
    rw [List.mem_range'_1] at hi
    omega

def decodeSingleFrameChecked : Option (FrameDecoder × ProtocolResult Frame) :=
  match self.expectedFrameSize with
  | none => some (self, .error (.decodingError "Frame size not determined"))
  | some frameSize => do
    let (frameData, buffer) ← splitTo frameSize self.buffer
    let frame ← Frame.deserializeChecked crc32 frameData
    some ({ self with buffer }, frame)

def decodeExpectedChecked (framesDecoded expectedSize : Nat) :
    Option ((FrameDecoder × Nat) ⊕ (FrameDecoder × ProtocolResult Nat)) :=
  if self.buffer.length ≥ expectedSize then do
    match ← self.decodeSingleFrameChecked crc32 with
    | (self, .ok frame) =>
      some (.inl ({ self with
        frameQueue := self.frameQueue ++ [frame]
        stats := { self.stats with framesDecoded := self.stats.framesDecoded + 1 }
        expectedFrameSize := none }, framesDecoded + 1))
    | (self, .error e) =>
      if e.isCorruption then do
        let self := { self with
          stats := { self.stats with corruptedFrames := self.stats.corruptedFrames + 1 } }
        let recovered ← self.recoverFromCorruptionChecked
        some (.inl ({ recovered with expectedFrameSize := none }, framesDecoded))
      else some (.inr (self, .error e))
  else
    some (.inr ({ self with
      stats := { self.stats with incompleteFrames := self.stats.incompleteFrames + 1 } },
      .ok framesDecoded))

private theorem decodeExpectedChecked_eq (framesDecoded size : Nat) :
    { self with expectedFrameSize := some size }.decodeExpectedChecked crc32
        framesDecoded size =
      some ({ self with expectedFrameSize := some size }.decodeExpected crc32
        framesDecoded size) := by
  unfold decodeExpectedChecked decodeExpected
  by_cases hlen : self.buffer.length ≥ size
  · rw [if_pos hlen, if_pos hlen]
    simp only [decodeSingleFrameChecked, decodeSingleFrame, splitTo_of_le hlen,
      Frame.deserializeChecked_eq, Option.bind_eq_bind, Option.bind_some]
    cases Frame.deserialize crc32 (self.buffer.take size) with
    | ok => rfl
    | error =>
      simp only [recoverFromCorruptionChecked_eq, Option.bind_some, apply_ite some]
  · rw [if_neg hlen, if_neg hlen]

end

def decodeRoundChecked : FrameDecoder × Nat →
    Option ((FrameDecoder × Nat) ⊕ (FrameDecoder × ProtocolResult Nat))
  | (self, framesDecoded) =>
    if self.buffer.length < frameHeaderSize then some (.inr (self, .ok framesDecoded))
    else do
      match ← self.frameSizeChecked with
      | .error e => some (.inr (self, .error e))
      | .ok none => some (.inr (self, .ok framesDecoded))
      | .ok (some size) =>
        decodeExpectedChecked crc32 { self with expectedFrameSize := some size }
          framesDecoded size

private theorem decodeRoundChecked_eq (s : FrameDecoder × Nat) :
    decodeRoundChecked crc32 s = some (decodeRound crc32 s) := by
  obtain ⟨self, framesDecoded⟩ := s
  unfold decodeRoundChecked decodeRound
  dsimp only
  rw [frameSizeChecked_eq]
  by_cases hsh : self.buffer.length < frameHeaderSize
  · rw [if_pos hsh, if_pos hsh]
  · rw [if_neg hsh, if_neg hsh]
    simp only [Option.bind_eq_bind, Option.bind_some]
    rcases self.frameSize with e | (_ | size)
    · rfl
    · rfl
    · exact decodeExpectedChecked_eq crc32 self framesDecoded size

/-- `decode_stream` with checked accesses, run for a number of rounds.  The inner `none`
is an access out of bounds. -/
def decodeStreamChecked (rounds : Nat) (self : FrameDecoder) (data : Bytes) :
    Option (Option (FrameDecoder × ProtocolResult Nat)) :=
  let buffer := self.buffer ++ data
  let stats := { self.stats with
    bytesProcessed := self.stats.bytesProcessed + data.length
    bufferSize := buffer.length
    peakBufferSize := max self.stats.peakBufferSize buffer.length }
  Loop.iterate (Loop.guarded (decodeRoundChecked crc32)) rounds
    ({ self with buffer, stats }, 0)

theorem decodeStreamChecked_eq (self : FrameDecoder) (data : Bytes) :
    ∃ rounds, decodeStreamChecked crc32 rounds self data =
      some (some (self.decodeStream crc32 data)) := by
  have hexits : Loop.Exits (decodeRound crc32) _
      (self.decodeStream crc32 data) :=
    Loop.run_exits (decodeRound_decreases crc32) _
  exact (hexits.guarded (decodeRoundChecked_eq crc32)).iterate

end FrameDecoder

end

/-! ## Where the frames come from -/

/-- A stretch of the input. -/
structure Span where
  start : Nat
  length : Nat
deriving DecidableEq

namespace Span

def stop (self : Span) : Nat := self.start + self.length

def bytes (self : Span) (input : Bytes) : Bytes := (input.drop self.start).take self.length

/-- This part of the input is the frame. -/
def Holds (crc32 : Bytes → Bytes → UInt32) (input : Bytes) (self : Span) (f : Frame) : Prop :=
  self.stop ≤ input.length ∧ Frame.deserialize crc32 (self.bytes input) = .ok f

end Span

section

variable (crc32 : Bytes → Bytes → UInt32) (input : Bytes)

/-- The frames delivered so far are those of parts of the input, one behind the other,
and the unread bytes are behind them all. -/
structure Traced (r : Reader) (spans : List Span) (position : Nat) : Prop where
  unread : r.unread = input.drop position
  frames : List.Forall₂ (Span.Holds crc32 input) spans r.delivered
  ordered : spans.Pairwise fun s t => s.stop ≤ t.start
  behind : ∀ s ∈ spans, s.stop ≤ position

variable {crc32 input} {r : Reader} {spans : List Span} {position : Nat}

section

variable (h : Traced crc32 input r spans position)
include h

theorem Traced.drop (n : Nat) (expected : Option Nat) :
    Traced crc32 input ⟨expected, r.unread.drop n, r.delivered⟩ spans
      (position + n) where
  unread := by
    rw [h.unread, List.drop_drop]
  frames := h.frames
  ordered := h.ordered
  behind s hs := Nat.le_add_right_of_le (h.behind s hs)

theorem Traced.accept {size : Nat} {f : Frame} (hfront : r.front crc32 = .accepted size f) :
    Traced crc32 input ⟨none, r.unread.drop size, r.delivered ++ [f]⟩
      (spans ++ [⟨position, size⟩]) (position + size) := by
  obtain ⟨hlen, -, hle, hf⟩ := attempt_eq_iff.mp hfront
  have hsize := (size_of_accepted hfront).2
  rw [h.unread] at hle hf
  rw [List.length_drop] at hle
  have hpos : 0 < frameHeaderSize := by decide
  have hspan : Span.Holds crc32 input ⟨position, size⟩ f := by
    refine ⟨?_, hf⟩
    change position + size ≤ input.length
    omega
  refine ⟨(h.drop size none).unread, ?_, ?_, ?_⟩
  · exact List.rel_append h.frames (.cons hspan .nil)
  · refine List.pairwise_append.mpr ⟨h.ordered, List.pairwise_singleton _ _, ?_⟩
    intro s hs t ht
    rw [List.mem_singleton.mp ht]
    exact h.behind s hs
  · intro s hs
    rcases List.mem_append.mp hs with hs | hs
    · exact Nat.le_add_right_of_le (h.behind s hs)
    · rw [List.mem_singleton.mp hs]
      exact Nat.le_refl _

end

variable {cuts : Bytes → Prop} {r' : Reader}

theorem Traced.step (h : Traced crc32 input r spans position)
    (hstep : Reader.Step crc32 cuts r r') :
    ∃ spans position, Traced crc32 input r' spans position := by
  cases hstep with
  | accept hfront => exact ⟨_, _, h.accept hfront⟩
  | skip n => exact ⟨_, _, (h.drop _ none).drop n none⟩
  | fail => exact ⟨_, _, h.drop _ _⟩

/-- The spans are kept along a run. -/
theorem Traced.path (h : Traced crc32 input r spans position)
    (hpath : Reader.Path crc32 cuts r r') :
    ∃ spans position, Traced crc32 input r' spans position := by
  induction hpath with
  | refl => exact ⟨spans, position, h⟩
  | tail _ hstep ih =>
    obtain ⟨spans, position, htraced⟩ := ih
    exact htraced.step hstep

end

/-- The decoder is sound on any input.  Each `decode_stream` call of a session ends
without an access out of bounds, whatever the calls before it returned; and the frames
delivered are read from parts of the bytes received, in order and disjoint. -/
theorem decoder_sound (crc32 : Bytes → Bytes → UInt32) (calls : List DecoderCall) :
    (∀ before data later, calls = before ++ .decodeStream data :: later →
      let decoder := (Session.new.run crc32 before).decoder
      ∃ rounds, FrameDecoder.decodeStreamChecked crc32 rounds decoder data =
        some (some (decoder.decodeStream crc32 data))) ∧
    ∃ spans : List Span,
      List.Forall₂ (Span.Holds crc32 (DecoderCall.received calls)) spans
        ((Session.new.run crc32 calls).delivered crc32) ∧
      spans.Pairwise fun s t => s.stop ≤ t.start := by
  refine ⟨fun before data later _ => FrameDecoder.decodeStreamChecked_eq _ _ data, ?_⟩
  have hrun : Session.Follows crc32 _ _ _ _ := Session.run_tracks calls
  obtain ⟨r, hpath, -, hdel, -⟩ := hrun.ended
  have hstart : Traced crc32 (DecoderCall.received calls)
      ⟨none, DecoderCall.received calls, []⟩ [] 0 :=
    ⟨rfl, .nil, .nil, by simp⟩
  obtain ⟨spans, position, htraced⟩ := hstart.path hpath
  rw [hdel]
  exact ⟨spans, htraced.frames, htraced.ordered⟩

end Kaelix.Core.Protocol
