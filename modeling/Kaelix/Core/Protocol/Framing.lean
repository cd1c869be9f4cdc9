import Kaelix.Core.Protocol.Streaming
import Kaelix.Lib.History

/-!
# The remembered frame size

The decoder remembers the size of the frame at the start of its buffer.  A frame that fails to
decode has left the buffer, and its size is still remembered.
-/

namespace Kaelix.Core.Protocol

open Lib Lib.BigEndian

/-- The bytes start with a header that declares a frame of this size. -/
def Declares (data : Bytes) (size : Nat) : Prop :=
  frameHeaderSize ≤ data.length ∧ size = frameHeaderSize + Frame.declaredLen data

/-- The bytes start with a complete frame of another protocol version that is not too large. -/
structure OtherVersion (limit : Nat) (data : Bytes) : Prop where
  complete : frameHeaderSize + Frame.declaredLen data ≤ data.length
  payload_le : u32.read 32 data ≤ maxPayloadSize
  size_le : frameHeaderSize + Frame.declaredLen data ≤ limit
  magic : data.take 4 = protocolMagic
  version : u8.read 4 data ≠ protocolVersion

section

variable {crc32 : Bytes → Bytes → UInt32} {limit size : Nat} {data : Bytes}

theorem settledSize_none_iff :
    settledSize limit none data = .ok size ↔
      size = frameHeaderSize + Frame.declaredLen data ∧ u32.read 32 data ≤ maxPayloadSize ∧
        size ≤ limit := by
  simp only [settledSize]
  split
  · next hlarge => simp [UInt32.not_le.mpr hlarge]
  next hpay =>
  split
  · next hlim =>
      simp only [reduceCtorEq, false_iff]
      intro h
      omega
  · next hlim =>
      simp only [Except.ok.injEq, UInt32.not_lt.mp hpay, true_and]
      omega

theorem FrameType.isCorruption_of_fromU16 {value : UInt16} {e : ProtocolError}
    (h : FrameType.fromU16 value = .error e) : e.isCorruption = true := by
  unfold FrameType.fromU16 at h
  repeat' split at h
  all_goals cases h
  rfl

theorem Frame.deserialize_fails_iff (hlen : data.length = frameHeaderSize + declaredLen data)
    (hpay : u32.read 32 data ≤ maxPayloadSize) :
    (∃ e, deserialize crc32 data = .error e ∧ e.isCorruption = false) ↔
      data.take 4 = protocolMagic ∧ u8.read 4 data ≠ protocolVersion := by
  have hdrop : ¬ (data.drop 40).length < (u32.read 32 data).toNat := by
    rw [List.length_drop, hlen]
    exact Nat.not_lt.mpr (Nat.le_sub_of_add_le (Nat.le_of_eq (Nat.add_comm _ _)))
  rw [deserialize, if_neg (by omega)]
  dsimp only
  simp only [Word.get_drop, u8_bytes, u16_bytes, u32_bytes, u64_bytes, Nat.reduceAdd,
    UInt32.not_lt.mpr hpay, hdrop, if_false]
  split
  · next hmagic => simp [ProtocolError.isCorruption, hmagic]
  next hmagic =>
  split
  · next hver => simp [ProtocolError.isCorruption, not_not.mp hmagic, hver]
  next hver =>
  -- behind the version only the checksum and the frame type are left
  simp only [hver, and_false, iff_false]
  generalize (if u32.read 32 data = 0 then [] else _) = payload
  rintro ⟨e, he, hcorr⟩
  split at he
  · cases he
    cases hcorr
  split at he
  · next htype =>
      cases he
      rw [FrameType.isCorruption_of_fromU16 htype] at hcorr
      cases hcorr
  · cases he

theorem OtherVersion.iff_rejected (crc32 : Bytes → Bytes → UInt32) :
    OtherVersion limit data ↔
      ∃ size e, attempt crc32 limit none data = .rejected size e ∧
        e.isCorruption = false := by
  have hframe : ∀ {size}, size = frameHeaderSize + Frame.declaredLen data →
      size ≤ data.length → u32.read 32 data ≤ maxPayloadSize →
      ((∃ e, Frame.deserialize crc32 (data.take size) = .error e ∧
          e.isCorruption = false) ↔
        data.take 4 = protocolMagic ∧ u8.read 4 data ≠ protocolVersion) := by
    intro size hsize hle hpay
    have hhdr : 40 ≤ size := by rw [hsize]; exact Nat.le_add_right _ _
    have hread : u32.read 32 (data.take size) = u32.read 32 data :=
      u32.read_take 32 hle (by simp; omega)
    have hver : u8.read 4 (data.take size) = u8.read 4 data :=
      u8.read_take 4 hle (by simp; omega)
    rw [Frame.deserialize_fails_iff
      (by rw [List.length_take_of_le hle, Frame.declaredLen, hread]; exact hsize)
      (by rwa [hread]), hver, List.take_take, Nat.min_eq_left (by omega)]
  constructor
  · intro h
    obtain ⟨e, he, hcorr⟩ := (hframe rfl h.complete h.payload_le).mpr ⟨h.magic, h.version⟩
    have hhdr : frameHeaderSize ≤ data.length := (Nat.le_add_right _ _).trans h.complete
    refine ⟨_, e, attempt_eq_iff.mpr ⟨hhdr, ?_, h.complete, he⟩, hcorr⟩
    exact settledSize_none_iff.mpr ⟨rfl, h.payload_le, h.size_le⟩
  · rintro ⟨size, e, h, hcorr⟩
    obtain ⟨-, hsize, hle, he⟩ := attempt_eq_iff.mp h
    obtain ⟨rfl, hpay, hlim⟩ := settledSize_none_iff.mp hsize
    obtain ⟨hmagic, hver⟩ := (hframe rfl hle hpay).mp ⟨e, he, hcorr⟩
    exact ⟨hle, hpay, hlim, hmagic, hver⟩

end

namespace FrameDecoder

section

variable (self : FrameDecoder)

def setMaxFrameSize (size : Nat) : FrameDecoder :=
  { self with maxFrameSize := size }

def feed (data : Bytes) : FrameDecoder :=
  let buffer := self.buffer ++ data
  let stats := { self.stats with
    bytesProcessed := self.stats.bytesProcessed + data.length
    bufferSize := buffer.length
    peakBufferSize := max self.stats.peakBufferSize buffer.length }
  { self with buffer, stats }

/-- A remembered size is the one that the header at the start of the buffer declares. -/
def Framed : Prop :=
  ∀ size, self.expectedFrameSize = some size → Declares self.buffer size

/-- A remembered size is the one that would be read from the header now. -/
def Settled : Prop :=
  ∀ size, self.expectedFrameSize = some size →
    frameHeaderSize ≤ self.buffer.length ∧
      settledSize self.maxFrameSize none self.buffer = .ok size

end

variable {self : FrameDecoder} {crc32 : Bytes → Bytes → UInt32} {size : Nat}

theorem Settled.framed (h : self.Settled) : self.Framed := by
  intro size hsize
  obtain ⟨hhdr, hset⟩ := h size hsize
  exact ⟨hhdr, (settledSize_none_iff.mp hset).1⟩

theorem settled_of_none (h : self.expectedFrameSize = none) : self.Settled := by
  intro size hsize
  rw [h] at hsize
  cases hsize

theorem Settled.front_eq (h : self.Settled) :
    self.front crc32 =
      attempt crc32 self.maxFrameSize none self.buffer := by
  apply attempt_congr
  cases hsize : self.expectedFrameSize with
  | none => rfl
  | some size => exact (h size hsize).2.symm

theorem Settled.feed (h : self.Settled) (data : Bytes) : (self.feed data).Settled := by
  intro size hsize
  obtain ⟨hhdr, hset⟩ := h size hsize
  refine ⟨?_, (settledSize_append data hhdr).trans hset⟩
  show _ ≤ (self.buffer ++ data).length
  rw [List.length_append]
  omega

theorem settled_of_next {s s' : FrameDecoder × Nat}
    (h : decodeRound crc32 s = .inl s') : s'.1.Settled := by
  obtain ⟨self, framesDecoded⟩ := s
  obtain ⟨size, f, -, rfl⟩ | ⟨size, e, -, -, rfl⟩ := decodeRound_next h
  · exact settled_of_none rfl
  · exact settled_of_none rfl

/-- In the state in which a call ends, a frame of another version is followed by a header that
declares the same size. -/
def SameSizeBehind (self : FrameDecoder) : Prop :=
  OtherVersion self.maxFrameSize self.buffer →
    Declares (self.buffer.drop (frameHeaderSize + Frame.declaredLen self.buffer))
      (frameHeaderSize + Frame.declaredLen self.buffer)

private theorem settledSize_of_declares {limit : Nat} {data rest : Bytes}
    (h : settledSize limit none data = .ok size) (hrest : Declares rest size) :
    settledSize limit none rest = .ok size := by
  obtain ⟨hsize, hpay, hlim⟩ := settledSize_none_iff.mp h
  have hlen : u32.read 32 rest = u32.read 32 data := by
    apply UInt32.toNat_inj.mp
    show Frame.declaredLen rest = Frame.declaredLen data
    have := hrest.2
    omega
  exact settledSize_none_iff.mpr ⟨hrest.2, hlen ▸ hpay, hlim⟩

theorem Settled.done {framesDecoded : Nat} {r : FrameDecoder × ProtocolResult Nat}
    (hself : self.Settled) (h : decodeRound crc32 (self, framesDecoded) = .inr r) :
    (r.1.Framed → r.1.Settled) ∧ (r.1.Framed ↔ self.SameSizeBehind) := by
  -- no frame of another version is at the front unless the attempt rejects one
  have hnone : (∀ size e, self.front crc32 ≠ .rejected size e) →
      self.SameSizeBehind := by
    intro hfront hoth
    obtain ⟨size, e, hrej, -⟩ := (OtherVersion.iff_rejected crc32).mp hoth
    exact absurd (hself.front_eq.trans hrej) (hfront size e)
  obtain ⟨hfront, rfl⟩ | ⟨e, hfront, rfl⟩ | ⟨size, hfront, rfl⟩ | ⟨size, e, hfront, he, rfl⟩ :=
    decodeRound_done h
  · exact ⟨fun _ => hself, iff_of_true hself.framed (hnone (by simp [hfront]))⟩
  · exact ⟨fun _ => hself, iff_of_true hself.framed (hnone (by simp [hfront]))⟩
  · have hfinds := attempt_eq_iff.mp (hself.front_eq.symm.trans hfront)
    have hawait : (self.await size).Settled := by
      intro _ hsize
      cases hsize
      exact ⟨hfinds.1, hfinds.2.1⟩
    exact ⟨fun _ => hawait, iff_of_true hawait.framed (hnone (by simp [hfront]))⟩
  · have hrej := hself.front_eq.symm.trans hfront
    have hset := (attempt_eq_iff.mp hrej).2.1
    have hframed : (self.fail size).Framed ↔ Declares (self.buffer.drop size) size := by
      simp [Framed, fail]
    rw [hframed, SameSizeBehind, ← (settledSize_none_iff.mp hset).1]
    refine ⟨fun hrest _ hsize => ?_, fun hrest _ => hrest, fun hoth => hoth ?_⟩
    · cases hsize
      exact ⟨hrest.1, settledSize_of_declares hset hrest⟩
    · exact (OtherVersion.iff_rejected crc32).mpr ⟨size, e, hrej, he⟩

section

variable (crc32 : Bytes → Bytes → UInt32)

def receive (self : FrameDecoder) (data : Bytes) : FrameDecoder :=
  (self.decodeStream crc32 data).1

/-- A frame of another version that ends a call is followed by a header that declares the same
size. -/
def KeepsFraming (self : FrameDecoder) (data : Bytes) : Prop :=
  ∀ last framesDecoded, Loop.EndsAt (decodeRound crc32) (self.feed data, 0)
    (last, framesDecoded) → last.SameSizeBehind

theorem Settled.receive (h : self.Settled) (data : Bytes) :
    ((self.receive crc32 data).Framed →
        (self.receive crc32 data).Settled) ∧
      ((self.receive crc32 data).Framed ↔
        self.KeepsFraming crc32 data) := by
  have hrun := Loop.run_exits (decodeRound_decreases crc32) (self.feed data, 0)
  obtain ⟨⟨last, n⟩, hlast, hdone⟩ := hrun.endsAt
  have hset : last.Settled :=
    hlast.invariant (I := fun s => s.1.Settled) (h.feed data)
      fun _ _ hnext _ => settled_of_next hnext
  have hcond : self.KeepsFraming crc32 data ↔ last.SameSizeBehind := by
    constructor
    · intro hkeeps
      exact hkeeps last n hlast
    · intro hbehind last' n' hlast'
      cases hlast.unique hlast'
      exact hbehind
  rw [hcond]
  exact hset.done hdone

/-- After every sequence of calls a remembered size is the one that the header at the start of
the buffer declares, if and only if every frame of another version that ends a call is followed
by a header that declares the same size. -/
theorem framed_iff (limit : Nat) (calls : List Bytes) :
    Always (receive crc32) Framed (new.setMaxFrameSize limit) calls ↔
      EachStep (receive crc32) (KeepsFraming crc32)
        (new.setMaxFrameSize limit) calls := by
  have hnew : (new.setMaxFrameSize limit).Settled := settled_of_none rfl
  exact always_iff_eachStep hnew hnew.framed
    (fun _ data h _ hframed => (h.receive crc32 data).1 hframed)
    (fun _ data h _ => (h.receive crc32 data).2)

end

def frameOfVersion2 : Bytes := protocolMagic ++ (u8.put 2 ++ List.replicate 35 0)

/-- The size of a dropped frame is remembered over an empty buffer. -/
theorem frame_of_version_2_unframed :
    frameOfVersion2.length = 40 ∧ ∀ crc32,
      (new.decodeStream crc32 frameOfVersion2).2 = .error (.unsupportedVersion 2 1) ∧
        (new.receive crc32 frameOfVersion2).expectedFrameSize = some 40 ∧
        (new.receive crc32 frameOfVersion2).buffer = [] ∧
        ¬ (new.receive crc32 frameOfVersion2).Framed := by
  refine ⟨by decide, fun crc32 => ?_⟩
  have hsize : (new.receive crc32 frameOfVersion2).expectedFrameSize = some 40 := rfl
  have hbuf : (new.receive crc32 frameOfVersion2).buffer = [] := rfl
  refine ⟨rfl, hsize, hbuf, fun h => ?_⟩
  have hhdr := (h 40 hsize).1
  rw [hbuf] at hhdr
  cases hhdr

end FrameDecoder

end Kaelix.Core.Protocol
