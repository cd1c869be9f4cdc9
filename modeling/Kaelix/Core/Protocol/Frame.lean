import Kaelix.Lib.ByteOrder

/-!
# Frames of the binary protocol

`Frame` of `kaelix-core/src/protocol/frame.rs` with the frame types and flags of
`protocol/mod.rs`: a header of 40 bytes, big-endian, and a payload.

```text
 0  magic (4)     8  stream id (4)   24  timestamp (8)
 4  version (1)  12  reserved (4)    32  payload length (4)
 5  flags (2)    16  sequence (8)    36  checksum (4)
 7  reserved (1)                     40  payload
```

Nothing is assumed about the checksum: both sides compute it over the first 36 bytes and the
payload.
-/

namespace Kaelix.Core.Protocol

open Lib.BigEndian

abbrev Bytes := List UInt8

def protocolMagic : Bytes := [0x4B, 0x41, 0x45, 0x58]

def protocolVersion : UInt8 := 0x01

def frameHeaderSize : Nat := 40

def maxPayloadSize : UInt32 := 16 * 1024 * 1024

/-- What is wrong with a frame's bytes. -/
inductive ProtocolError
  /-- "Frame buffer too small: need at least {required} bytes, got {actual}" -/
  | bufferTooSmall (required actual : Nat)
  /-- "Invalid frame magic bytes: expected {expected:?}, got {actual:?}" -/
  | invalidMagic (expected actual : Bytes)
  /-- "Unsupported protocol version: {version} (supported: {supported})" -/
  | unsupportedVersion (version supported : UInt8)
  /-- "Payload size {actual} exceeds maximum {max}" -/
  | payloadTooLarge (actual max : UInt32)
  /-- "Incomplete frame: expected {expected} bytes, got {actual}" -/
  | incompleteFrame (expected actual : Nat)
  /-- "Checksum mismatch: expected {expected:#08x}, computed {actual:#08x}" -/
  | checksumMismatch (expected actual : UInt32)
  /-- "Invalid frame type: {frame_type:#04x}" -/
  | invalidFrameType (frameType : UInt16)
  /-- "Encoding error: {message}" -/
  | encodingError (message : String)
  /-- "Frame size {actual} exceeds maximum {max}" -/
  | frameTooLarge (actual max : Nat)
  /-- "Decoding error: {message}" -/
  | decodingError (message : String)
deriving DecidableEq

abbrev ProtocolResult := Except ProtocolError

/-! ## Frame types and flags -/

/-- What a frame carries. -/
inductive FrameType
  | data
  | control
  | heartbeat
  | ack
  | error
  | close
deriving DecidableEq

namespace FrameType

def fromU16 (value : UInt16) : ProtocolResult FrameType :=
  if value = 0x0001 then .ok .data
  else if value = 0x0002 then .ok .control
  else if value = 0x0003 then .ok .heartbeat
  else if value = 0x0004 then .ok .ack
  else if value = 0x0005 then .ok .error
  else if value = 0x0006 then .ok .close
  else .error (.invalidFrameType value)

def asU16 : FrameType → UInt16
  | .data => 0x0001
  | .control => 0x0002
  | .heartbeat => 0x0003
  | .ack => 0x0004
  | .error => 0x0005
  | .close => 0x0006

end FrameType

/-- Frame flags: the frame type in the low byte, other flags above it. -/
structure FrameFlags where
  bits : UInt16
deriving DecidableEq

namespace FrameFlags

def new (frameType : FrameType) : FrameFlags := ⟨frameType.asU16⟩

variable (self : FrameFlags)

def frameType : ProtocolResult FrameType :=
  FrameType.fromU16 (self.bits &&& 0x00FF)

def withCompression : FrameFlags := ⟨self.bits ||| 0x0100⟩

def withEndOfStream : FrameFlags := ⟨self.bits ||| 0x0200⟩

theorem frameType_new (t : FrameType) : (new t).frameType = .ok t := by
  cases t <;> decide

private theorem frameType_or (bits high : UInt16) (h : high &&& 0x00FF = 0) :
    (mk (bits ||| high)).frameType = (mk bits).frameType := by
  have hlow : (bits ||| high) &&& 0x00FF = bits &&& 0x00FF := by
    have hbits : high.toBitVec &&& (0x00FF : UInt16).toBitVec = 0#16 := congrArg UInt16.toBitVec h
    apply UInt16.toBitVec_inj.mp
    rw [UInt16.toBitVec_and, UInt16.toBitVec_or, BitVec.and_or_distrib_right, hbits,
      BitVec.or_zero, UInt16.toBitVec_and]
  rw [frameType, frameType]
  exact congrArg FrameType.fromU16 hlow

theorem frameType_withCompression :
    self.withCompression.frameType = self.frameType := frameType_or _ _ (by decide)

theorem frameType_withEndOfStream :
    self.withEndOfStream.frameType = self.frameType := frameType_or _ _ (by decide)

end FrameFlags

/-! ## Frames -/

/-- A frame without its checksum. -/
structure Frame where
  flags : FrameFlags
  streamId : UInt32
  sequence : UInt64
  timestamp : UInt64
  payload : Bytes
deriving DecidableEq

namespace Frame

def payloadSize (self : Frame) : UInt32 := .ofNat self.payload.length

/-- The first 36 bytes: what `serialize` has written when it computes the checksum. -/
def headerWithoutChecksum (self : Frame) : Bytes :=
  protocolMagic ++ (u8.put protocolVersion ++ (u16.put self.flags.bits ++ (u8.put 0 ++
    (u32.put self.streamId ++ (u32.put 0 ++ (u64.put self.sequence ++
      (u64.put self.timestamp ++ u32.put self.payloadSize)))))))

section

-- `calculate_checksum` of a header and a payload
variable (crc32 : Bytes → Bytes → UInt32)

/-- The header, the checksum and the payload. -/
def serialize (self : Frame) : Bytes :=
  self.headerWithoutChecksum ++
    (u32.put (crc32 self.headerWithoutChecksum self.payload) ++ self.payload)

/-- `deserialize`.  All reads of the header are inside the buffer, as its length is
checked first. -/
def deserialize (data : Bytes) : ProtocolResult Frame :=
  if data.length < frameHeaderSize then
    .error (.bufferTooSmall frameHeaderSize data.length)
  else
    let magic := data.take 4
    let buf := data.drop 4
    if magic ≠ protocolMagic then .error (.invalidMagic protocolMagic magic)
    else
      let (version, buf) := u8.get buf
      if version ≠ protocolVersion then
        .error (.unsupportedVersion version protocolVersion)
      else
        let (flags, buf) := u16.get buf
        let (_reserved1, buf) := u8.get buf
        let (streamId, buf) := u32.get buf
        let (_reserved2, buf) := u32.get buf
        let (sequence, buf) := u64.get buf
        let (timestamp, buf) := u64.get buf
        let (payloadLen, buf) := u32.get buf
        if payloadLen > maxPayloadSize then
          .error (.payloadTooLarge payloadLen maxPayloadSize)
        else
          let (expectedChecksum, buf) := u32.get buf
          if buf.length < payloadLen.toNat then
            .error (.incompleteFrame (frameHeaderSize + payloadLen.toNat)
              (frameHeaderSize + buf.length))
          else
            let payload := if payloadLen = 0 then [] else buf.take payloadLen.toNat
            let actualChecksum := crc32 (data.take 36) payload
            if expectedChecksum ≠ actualChecksum then
              .error (.checksumMismatch expectedChecksum actualChecksum)
            else
              match (FrameFlags.mk flags).frameType with
              | .error e => .error e
              | .ok _frameType => .ok ⟨⟨flags⟩, streamId, sequence, timestamp, payload⟩

end

/-- The flags carry a frame type and the payload is not too large. -/
def Valid (f : Frame) : Prop :=
  (∃ t, f.flags.frameType = .ok t) ∧ f.payload.length ≤ maxPayloadSize.toNat

variable {f : Frame}

/-! ## Reading a serialized frame -/

theorem length_headerWithoutChecksum (f : Frame) : f.headerWithoutChecksum.length = 36 := by
  simp [headerWithoutChecksum, protocolMagic]

def bytesWith (self : Frame) (checksum : UInt32) : Bytes :=
  self.headerWithoutChecksum ++ (u32.put checksum ++ self.payload)

theorem length_bytesWith (f : Frame) (checksum : UInt32) :
    (f.bytesWith checksum).length = frameHeaderSize + f.payload.length := by
  rw [bytesWith, List.length_append, List.length_append, length_headerWithoutChecksum,
    Word.length_put, u32_bytes, frameHeaderSize]
  omega

section

variable (crc32 : Bytes → Bytes → UInt32)

theorem length_serialize (f : Frame) :
    (f.serialize crc32).length = frameHeaderSize + f.payload.length :=
  length_bytesWith f _

theorem toNat_payloadSize (h : f.payload.length ≤ maxPayloadSize.toNat) :
    f.payloadSize.toNat = f.payload.length := by
  have hmax : maxPayloadSize.toNat = 16777216 := rfl
  exact UInt32.toNat_ofNat_of_lt (by show _ < 2 ^ 32; omega)

private theorem payload_slice (payloadLen : UInt32) (buf : Bytes) :
    (if payloadLen = 0 then [] else buf.take payloadLen.toNat) = buf.take payloadLen.toNat := by
  split
  · next hz => rw [hz]; rfl
  · rfl

theorem deserialize_bytesWith (h : f.Valid) (checksum : UInt32) :
    deserialize crc32 (f.bytesWith checksum) =
      if checksum ≠ crc32 f.headerWithoutChecksum f.payload then
        .error (.checksumMismatch checksum (crc32 f.headerWithoutChecksum f.payload))
      else .ok f := by
  obtain ⟨⟨t, ht⟩, hlen⟩ := h
  have hsize := toNat_payloadSize hlen
  have hlarge : ¬ f.payloadSize > maxPayloadSize := by
    rw [gt_iff_lt, UInt32.lt_iff_toNat_lt, hsize]
    exact Nat.not_lt.mpr hlen
  have hhead : (f.bytesWith checksum).take 36 = f.headerWithoutChecksum :=
    List.take_left' f.length_headerWithoutChecksum
  have hpay : (if f.payloadSize = 0 then [] else
      f.payload.take f.payloadSize.toNat) = f.payload := by
    rw [payload_slice, hsize, List.take_length]
  rw [deserialize, if_neg (by rw [length_bytesWith]; omega), hhead]
  -- from here on the buffer is read field by field
  have hbytes : f.bytesWith checksum = protocolMagic ++ (u8.put protocolVersion ++
      (u16.put f.flags.bits ++ (u8.put 0 ++ (u32.put f.streamId ++ (u32.put 0 ++
        (u64.put f.sequence ++ (u64.put f.timestamp ++ (u32.put f.payloadSize ++
          (u32.put checksum ++ f.payload))))))))) := by
    rw [bytesWith, headerWithoutChecksum]
    simp only [List.append_assoc]
  have hmagic : (f.bytesWith checksum).take 4 = protocolMagic := by
    rw [hbytes]
    rfl
  have hrest := congrArg (List.drop 4) hbytes
  rw [List.drop_left' (show protocolMagic.length = 4 from rfl)] at hrest
  have ht' : (FrameFlags.mk f.flags.bits).frameType = .ok t := ht
  simp only [hmagic, hrest, Word.get_put_append, ne_eq, not_true_eq_false, if_false,
    hlarge, hpay, ht']
  rw [if_neg (by rw [hsize]; exact Nat.lt_irrefl _)]

theorem deserialize_serialize (h : f.Valid) : deserialize crc32 (f.serialize crc32) = .ok f :=
  (deserialize_bytesWith crc32 h _).trans (if_neg (not_not.mpr rfl))

end

/-! ## Writing what was read -/

def declaredLen (data : Bytes) : Nat := (u32.read 32 data).toNat

/-- What `deserialize` has checked when it returns a frame, and which frame it is. -/
structure Accepted (crc32 : Bytes → Bytes → UInt32) (data : Bytes)
    (f : Frame) : Prop where
  length_le : frameHeaderSize ≤ data.length
  magic : data.take 4 = protocolMagic
  version : u8.read 4 data = protocolVersion
  payload_le : declaredLen data ≤ maxPayloadSize.toNat
  complete : frameHeaderSize + declaredLen data ≤ data.length
  checksum : u32.read 36 data = crc32 (data.take 36) f.payload
  frameType : ∃ t, f.flags.frameType = .ok t
  frame : f = ⟨⟨u16.read 5 data⟩, u32.read 8 data, u64.read 16 data, u64.read 24 data,
    (data.drop 40).take (declaredLen data)⟩

variable {crc32 : Bytes → Bytes → UInt32} {data : Bytes}

theorem accepted_of_deserialize (h : deserialize crc32 data = .ok f) : Accepted crc32 data f := by
  unfold deserialize at h
  split at h
  · cases h
  next hlen =>
  have hlen : frameHeaderSize ≤ data.length := Nat.le_of_not_lt hlen
  dsimp only at h
  split at h
  · cases h
  next hmagic =>
  simp only [Word.get_drop, u8_bytes, u16_bytes, u32_bytes, u64_bytes, Nat.reduceAdd] at h
  split at h
  · cases h
  next hver =>
  split at h
  · cases h
  next hpay =>
  split at h
  · cases h
  next hcomp =>
  rw [payload_slice] at h
  split at h
  · cases h
  next hchecksum =>
  split at h
  · cases h
  next t ht =>
  cases h
  have hcomp : declaredLen data ≤ (data.drop 40).length := Nat.le_of_not_lt hcomp
  rw [List.length_drop] at hcomp
  exact {
    length_le := hlen
    magic := not_not.mp hmagic
    version := not_not.mp hver
    payload_le := UInt32.le_iff_toNat_le.mp (UInt32.not_lt.mp hpay)
    complete := by unfold frameHeaderSize at hlen ⊢; omega
    checksum := not_not.mp hchecksum
    frameType := ⟨t, ht⟩
    frame := rfl }

/-- The reserved bytes, which `deserialize` skips, are zero. -/
def ReservedZero (data : Bytes) : Prop :=
  (data.drop 7).take 1 = [0] ∧ (data.drop 12).take 4 = [0, 0, 0, 0]

instance (data : Bytes) : Decidable (ReservedZero data) := inferInstanceAs (Decidable (_ ∧ _))

private theorem headerWithoutChecksum_append (h : Accepted crc32 data f)
    (hzero : ReservedZero data) (hsize : f.payloadSize = u32.read 32 data) :
    f.headerWithoutChecksum ++ data.drop 36 = data := by
  have hlen : 40 ≤ data.length := h.length_le
  have hzero1 : u8.read 7 data = 0 := by
    rw [Word.read, Word.get, u8_bytes, hzero.1]
    rfl
  have hzero2 : u32.read 12 data = 0 := by
    rw [Word.read, Word.get, u32_bytes, hzero.2]
    rfl
  -- each field and the bytes behind it are the bytes from its offset on
  have e32 := u32.put_read 32 data (by simp; omega)
  have e24 := u64.put_read 24 data (by simp; omega)
  have e16 := u64.put_read 16 data (by simp; omega)
  have e12 := u32.put_read 12 data (by simp; omega)
  have e8 := u32.put_read 8 data (by simp; omega)
  have e7 := u8.put_read 7 data (by simp; omega)
  have e5 := u16.put_read 5 data (by simp; omega)
  have e4 := u8.put_read 4 data (by simp; omega)
  rw [hzero2] at e12
  rw [hzero1] at e7
  rw [h.version] at e4
  simp only [u32_bytes, u64_bytes, Nat.reduceAdd] at e32 e24 e16 e12
  simp only [u8_bytes, u16_bytes, u32_bytes, Nat.reduceAdd] at e8 e7 e5 e4
  rw [headerWithoutChecksum, hsize, h.frame]
  simp only [List.append_assoc, e32, e24, e16, e12, e8, e7, e5, e4]
  rw [← h.magic, List.take_append_drop]

private theorem serialize_of_accepted (h : Accepted crc32 data f)
    (hlen : data.length = frameHeaderSize + declaredLen data) (hzero : ReservedZero data) :
    f.serialize crc32 = data := by
  have hpay : f.payload = data.drop 40 := by
    have hdrop : (data.drop 40).length = declaredLen data := by
      rw [List.length_drop, hlen, frameHeaderSize]
      omega
    rw [h.frame]
    exact List.take_of_length_le (Nat.le_of_eq hdrop)
  have hsize : f.payloadSize = u32.read 32 data := by
    rw [payloadSize, hpay, List.length_drop, hlen, frameHeaderSize,
      Nat.add_sub_cancel_left, declaredLen]
    exact UInt32.ofNat_toNat
  have hhead := headerWithoutChecksum_append h hzero hsize
  have htake : data.take 36 = f.headerWithoutChecksum := by
    rw [← hhead]
    exact List.take_left' f.length_headerWithoutChecksum
  have e36 := u32.put_read 36 data (by
    have := h.length_le
    unfold frameHeaderSize at this
    simp
    omega)
  simp only [u32_bytes, Nat.reduceAdd] at e36
  rw [serialize, ← htake, ← h.checksum, hpay, e36, htake, hhead]

theorem exists_wrong_checksum (f : Frame) (crc32 : Bytes → Bytes → UInt32) :
    ∃ checksum, checksum ≠ crc32 f.headerWithoutChecksum f.payload := by
  have : Nontrivial UInt32 := ⟨0, 1, by decide⟩
  exact exists_ne _

end Frame

/-- The codec is a bijection: valid frames are read back, and accepted strings with
nothing behind the payload and zero reserved bytes are written back. -/
theorem frame_codec_bijective (crc32 : Bytes → Bytes → UInt32) :
    (∀ f : Frame, f.Valid →
      Frame.deserialize crc32 (f.serialize crc32) = .ok f) ∧
    ∀ (data : Bytes) (f : Frame), Frame.deserialize crc32 data = .ok f →
      data.length = frameHeaderSize + Frame.declaredLen data →
      Frame.ReservedZero data → f.serialize crc32 = data :=
  ⟨fun _ hf => Frame.deserialize_serialize crc32 hf,
    fun _ _ h hlen hzero =>
      Frame.serialize_of_accepted (Frame.accepted_of_deserialize h) hlen hzero⟩

def sampleFrame : Frame :=
  { flags := (FrameFlags.new .data).withCompression.withEndOfStream
    streamId := 42
    sequence := 7
    timestamp := 1000
    payload := [1, 2, 3] }

theorem sampleFrame_valid : sampleFrame.Valid :=
  ⟨⟨.data, (FrameFlags.frameType_withEndOfStream _).trans
    ((FrameFlags.frameType_withCompression _).trans (FrameFlags.frameType_new _))⟩,
    by decide⟩

def lengthSum (header payload : Bytes) : UInt32 := .ofNat (header.length + payload.length)

/-- The sample is read back from its 43 bytes, and these are written back. -/
theorem frame_codec_sample :
    Frame.deserialize lengthSum (sampleFrame.serialize lengthSum) = .ok sampleFrame ∧
      (sampleFrame.serialize lengthSum).length = 43 ∧
      Frame.ReservedZero (sampleFrame.serialize lengthSum) :=
  ⟨(frame_codec_bijective lengthSum).1 sampleFrame sampleFrame_valid, by decide, by decide⟩

end Kaelix.Core.Protocol
