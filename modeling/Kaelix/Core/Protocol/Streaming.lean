import Kaelix.Core.Protocol.Codec
import Mathlib.Logic.Relation

/-!
# Decoding sessions

A `Session` is a decoder with what its user has got from it: the frames that `next_frame` returned
and the errors of `decode_stream`.
`Session.run_tracks` says that every session follows some path of the reader.
-/

namespace Kaelix.Core.Protocol

open Lib Lib.BigEndian

/-! ## Sessions -/

/-- The decoder's calls. -/
inductive DecoderCall
  | decodeStream (data : Bytes)
  | nextFrame
deriving DecidableEq

namespace DecoderCall

def data : DecoderCall → Bytes
  | decodeStream data => data
  | nextFrame => []

def received (calls : List DecoderCall) : Bytes := calls.flatMap data

theorem received_append (xs ys : List DecoderCall) :
    received (xs ++ ys) = received xs ++ received ys := List.flatMap_append

end DecoderCall

/-- A decoder, what it has given and how it has failed. -/
structure Session where
  decoder : FrameDecoder
  obtained : List Frame
  failures : List ProtocolError
deriving DecidableEq

namespace Session

def new : Session := ⟨.new, [], []⟩

section

variable (crc32 : Bytes → Bytes → UInt32)

variable (self : Session)

/-- The session after a call. -/
def call : DecoderCall → Session
  | .decodeStream data =>
    match self.decoder.decodeStream crc32 data with
    | (decoder, .ok _) => { self with decoder }
    | (decoder, .error e) => { self with decoder, failures := self.failures ++ [e] }
  | .nextFrame =>
    match self.decoder.nextFrame with
    | (decoder, some frame) => { self with decoder, obtained := self.obtained ++ [frame] }
    | (decoder, none) => { self with decoder }

def run (calls : List DecoderCall) : Session :=
  calls.foldl (call crc32) self

/-- The frames got from `next_frame` once it has been called until the queue is empty. -/
def delivered : List Frame :=
  (self.run crc32 (List.replicate self.decoder.frameQueue.length .nextFrame)).obtained

end

variable {crc32 : Bytes → Bytes → UInt32}

theorem delivered_eq (self : Session) :
    self.delivered crc32 = self.obtained ++ self.decoder.frameQueue := by
  unfold delivered
  generalize hq : self.decoder.frameQueue = queue
  induction queue generalizing self with
  | nil => simp [run]
  | cons frame queue ih =>
    have hcall : self.call crc32 .nextFrame =
        { self with
          decoder := { self.decoder with frameQueue := queue }
          obtained := self.obtained ++ [frame] } := by
      simp only [call, FrameDecoder.nextFrame, hq]
    rw [List.length_cons, List.replicate_succ, run, List.foldl_cons, hcall]
    have := ih { self with
      decoder := { self.decoder with frameQueue := queue }
      obtained := self.obtained ++ [frame] } rfl
    rw [run] at this
    rw [this]
    simp

end Session

/-! ## Attempts on longer strings -/

section

variable {crc32 : Bytes → Bytes → UInt32} {limit : Nat} {expected : Option Nat}
  {data : Bytes}

theorem settledSize_append (more : Bytes) (h : frameHeaderSize ≤ data.length) :
    settledSize limit expected (data ++ more) = settledSize limit expected data := by
  have hread : u32.read 32 (data ++ more) = u32.read 32 data :=
    u32.read_append 32 more (by unfold frameHeaderSize at h; simp; omega)
  rw [settledSize.eq_def, settledSize.eq_def, Frame.declaredLen, Frame.declaredLen, hread]

theorem attempt_congr {expected' : Option Nat}
    (h : settledSize limit expected data = settledSize limit expected' data) :
    attempt crc32 limit expected data =
      attempt crc32 limit expected' data := by
  rw [attempt, attempt, h]

theorem attempt_append {a : Attempt} (more : Bytes) (h : attempt crc32 limit expected data = a)
    (hsh : a ≠ .short) (hwait : ∀ size, a ≠ .incomplete size) :
    attempt crc32 limit expected (data ++ more) = a := by
  have hfinds := attempt_eq_iff.mp h
  apply attempt_eq_iff.mpr
  cases a with
  | short => exact absurd rfl hsh
  | incomplete size => exact absurd rfl (hwait size)
  | refused =>
    obtain ⟨hlen, hsize⟩ := hfinds
    exact ⟨by simp; omega, (settledSize_append more hlen).trans hsize⟩
  | accepted =>
    obtain ⟨hlen, hsize, hle, hf⟩ := hfinds
    refine ⟨by simp; omega, (settledSize_append more hlen).trans hsize, by simp; omega, ?_⟩
    rwa [List.take_append_of_le_length hle]
  | rejected =>
    obtain ⟨hlen, hsize, hle, he⟩ := hfinds
    refine ⟨by simp; omega, (settledSize_append more hlen).trans hsize, by simp; omega, ?_⟩
    rwa [List.take_append_of_le_length hle]

theorem attempt_await {size : Nat} (more : Bytes)
    (h : attempt crc32 limit expected data = .incomplete size) :
    attempt crc32 limit (some size) (data ++ more) =
      attempt crc32 limit expected (data ++ more) := by
  obtain ⟨hlen, hsize, -⟩ := attempt_eq_iff.mp h
  exact attempt_congr ((settledSize_append more hlen).trans hsize).symm

end

/-! ## Skipping -/

namespace FrameDecoder

private theorem resync_eq_nil {buffer : Bytes}
    (h : ∀ i, 1 ≤ i → i + 4 ≤ buffer.length → (buffer.drop i).take 4 ≠ protocolMagic) :
    resync buffer = [] := by
  have hnone : (List.range' 1 (buffer.length - 3 - 1)).find?
      (fun i => (buffer.drop i).take 4 = protocolMagic) = none := by
    rw [List.find?_range'_eq_none]
    intro i hpos hlt
    simpa using h i hpos (by omega)
  rw [resync, hnone]

theorem resync_cases (buffer : Bytes) :
    resync buffer = [] ∨ ∃ i, 1 ≤ i ∧ i + 4 ≤ buffer.length ∧
      (buffer.drop i).take 4 = protocolMagic ∧ resync buffer = buffer.drop i ∧
      ∀ k, k ≤ i + 3 → resync (buffer.take k) = [] := by
  unfold resync
  split
  · next i hfind =>
      obtain ⟨hmagic, hmem, hfirst⟩ := List.find?_range'_eq_some.mp hfind
      rw [List.mem_range'_1] at hmem
      refine Or.inr ⟨i, hmem.1, by omega, of_decide_eq_true hmagic, rfl, ?_⟩
      intro k hk
      refine resync_eq_nil fun j hpos hlen => ?_
      rw [List.length_take] at hlen
      have hslice : ((buffer.take k).drop j).take 4 = (buffer.drop j).take 4 := by
        rw [List.drop_take, List.take_take, Nat.min_eq_left (by omega)]
      have hj : (!decide ((buffer.drop j).take 4 = protocolMagic)) = true :=
        hfirst j hpos (by omega)
      rw [hslice]
      simpa using hj
  · exact Or.inl rfl

end FrameDecoder

/-! ## Carrying a property through a call -/

section

variable (crc32 : Bytes → Bytes → UInt32)

/-- What has to hold for `P` to be an invariant of the decoding loop and for `Q` to hold
at its end, in terms of the expected size, the buffer and the frames decoded so far; `Q`
is also told whether the call succeeds. -/
structure Rounds (P : Option Nat → Bytes → List Frame → Prop)
    (Q : Bool → Option Nat → Bytes → List Frame → Prop) : Prop where
  short : ∀ {e b q}, P e b q → attempt crc32 maxFrameSize e b = .short →
    Q true e b q
  refused : ∀ {e b q err}, P e b q →
    attempt crc32 maxFrameSize e b = .refused err → Q false e b q
  incomplete : ∀ {e b q size}, P e b q →
    attempt crc32 maxFrameSize e b = .incomplete size → Q true (some size) b q
  accepted : ∀ {e b q size f}, P e b q →
    attempt crc32 maxFrameSize e b = .accepted size f →
    P none (b.drop size) (q ++ [f])
  corrupted : ∀ {e b q size err}, P e b q →
    attempt crc32 maxFrameSize e b = .rejected size err →
    err.isCorruption = true → P none (FrameDecoder.resync (b.drop size)) q
  failed : ∀ {e b q size err}, P e b q →
    attempt crc32 maxFrameSize e b = .rejected size err →
    err.isCorruption = false → Q false (some size) (b.drop size) q

variable {crc32} {P : Option Nat → Bytes → List Frame → Prop}
  {Q : Bool → Option Nat → Bytes → List Frame → Prop}

variable (h : Rounds crc32 P Q)
include h

theorem Rounds.exits (past : List Frame)
    {s : FrameDecoder × Nat} {r : FrameDecoder × ProtocolResult Nat}
    (hexits : Loop.Exits (FrameDecoder.decodeRound crc32) s r)
    (hlim : s.1.maxFrameSize = maxFrameSize)
    (hP : P s.1.expectedFrameSize s.1.buffer (past ++ s.1.frameQueue)) :
    r.1.maxFrameSize = maxFrameSize ∧
      Q r.2.isOk r.1.expectedFrameSize r.1.buffer (past ++ r.1.frameQueue) := by
  induction hexits with
  | @done s r hdone =>
    obtain ⟨d, n⟩ := s
    obtain ⟨hfront, rfl⟩ | ⟨err, hfront, rfl⟩ | ⟨size, hfront, rfl⟩ |
      ⟨size, err, hfront, herr, rfl⟩ := FrameDecoder.decodeRound_done hdone
    all_goals rw [FrameDecoder.front, hlim] at hfront
    · exact ⟨hlim, h.short hP hfront⟩
    · exact ⟨hlim, h.refused hP hfront⟩
    · exact ⟨hlim, h.incomplete hP hfront⟩
    · exact ⟨hlim, h.failed hP hfront herr⟩
  | @next s s' r hnext _ ih =>
    obtain ⟨d, n⟩ := s
    obtain ⟨size, f, hfront, rfl⟩ | ⟨size, err, hfront, herr, rfl⟩ :=
      FrameDecoder.decodeRound_next hnext
    all_goals rw [FrameDecoder.front, hlim] at hfront
    · refine ih hlim ?_
      have haccepted := h.accepted hP hfront
      rwa [List.append_assoc] at haccepted
    · exact ih hlim (h.corrupted hP hfront herr)

theorem Rounds.decodeStream (past : List Frame)
    (d : FrameDecoder) (data : Bytes) (hlim : d.maxFrameSize = maxFrameSize)
    (hP : P d.expectedFrameSize (d.buffer ++ data) (past ++ d.frameQueue)) :
    (d.decodeStream crc32 data).1.maxFrameSize = maxFrameSize ∧
      Q (d.decodeStream crc32 data).2.isOk
        (d.decodeStream crc32 data).1.expectedFrameSize
        (d.decodeStream crc32 data).1.buffer
        (past ++ (d.decodeStream crc32 data).1.frameQueue) := by
  have hexits : Loop.Exits (FrameDecoder.decodeRound crc32) _
      (d.decodeStream crc32 data) :=
    Loop.run_exits (FrameDecoder.decodeRound_decreases crc32) _
  exact h.exits past hexits hlim hP

theorem Rounds.call (self : Session)
    (data : Bytes) (hlim : self.decoder.maxFrameSize = maxFrameSize)
    (hP : P self.decoder.expectedFrameSize (self.decoder.buffer ++ data)
      (self.obtained ++ self.decoder.frameQueue)) :
    let s := self.call crc32 (.decodeStream data)
    s.decoder.maxFrameSize = maxFrameSize ∧
      ∃ ok, Q ok s.decoder.expectedFrameSize s.decoder.buffer
          (s.obtained ++ s.decoder.frameQueue) ∧
        (ok = true → s.failures = self.failures) := by
  have hend := h.decodeStream self.obtained self.decoder data hlim hP
  simp only [Session.call]
  split
  · next d n hd =>
      rw [hd] at hend
      exact ⟨hend.1, true, hend.2, fun _ => rfl⟩
  · next d err hd =>
      rw [hd] at hend
      exact ⟨hend.1, false, hend.2, fun hok => by cases hok⟩

end

/-! ## The reader -/

/-- The bytes still unread, received or not, and the size remembered for the next frame
after a failure. -/
structure Reader where
  expected : Option Nat
  unread : Bytes
  delivered : List Frame

namespace Reader

section

variable (crc32 : Bytes → Bytes → UInt32)

def front (self : Reader) : Attempt :=
  attempt crc32 maxFrameSize self.expected self.unread

/-- A step over a frame.  Behind a corrupted frame some bytes without complete magic
bytes are skipped: none only where a call has ended. -/
inductive Step (cuts : Bytes → Prop) : Reader → Reader → Prop
  | accept {r : Reader} {size : Nat} {f : Frame}
      (h : r.front crc32 = .accepted size f) :
      Step cuts r ⟨none, r.unread.drop size, r.delivered ++ [f]⟩
  | skip {r : Reader} {size : Nat} {e : ProtocolError} (n : Nat)
      (h : r.front crc32 = .rejected size e) (he : e.isCorruption = true)
      (hskip : FrameDecoder.resync ((r.unread.drop size).take n) = [])
      (hcut : n = 0 → cuts (r.unread.drop size)) :
      Step cuts r ⟨none, (r.unread.drop size).drop n, r.delivered⟩
  | fail {r : Reader} {size : Nat} {e : ProtocolError}
      (h : r.front crc32 = .rejected size e) (he : e.isCorruption = false) :
      Step cuts r ⟨some size, r.unread.drop size, r.delivered⟩

/-- Some steps in a row. -/
abbrev Path (cuts : Bytes → Prop) : Reader → Reader → Prop :=
  Relation.ReflTransGen (Step crc32 cuts)

end

end Reader

/-- The attempt needs more bytes. -/
def Attempt.Waits : Attempt → Prop
  | .short => True
  | .refused _ => True
  | .incomplete _ => True
  | _ => False

/-- The attempt makes the call fail. -/
def Attempt.Fails : Attempt → Prop
  | .refused _ => True
  | .rejected _ e => e.isCorruption = false
  | _ => False

/-- A decoder that holds a part of the unread bytes stands where the reader stands. -/
structure Tracks (crc32 : Bytes → Bytes → UInt32) (later : Bytes)
    (expected : Option Nat) (buffer : Bytes) (queue : List Frame) (r : Reader) : Prop where
  unread : buffer ++ later = r.unread
  delivered : queue = r.delivered
  front : attempt crc32 maxFrameSize expected r.unread = r.front crc32
  expected : expected = r.expected ∨ frameHeaderSize ≤ buffer.length

variable {later : Bytes} {r : Reader}

section

variable {crc32 : Bytes → Bytes → UInt32} {cuts : Bytes → Prop} {r₀ : Reader}

section

variable {e : Option Nat} {b : Bytes} {q : List Frame} (h : Tracks crc32 later e b q r)
include h

theorem Tracks.front_eq {a : Attempt} (ha : attempt crc32 maxFrameSize e b = a)
    (hsh : a ≠ .short) (hwait : ∀ size, a ≠ .incomplete size) : r.front crc32 = a := by
  rw [← h.front, ← h.unread]
  exact attempt_append later ha hsh hwait

theorem Tracks.drop_unread {size : Nat} (hsize : size ≤ b.length) :
    b.drop size ++ later = r.unread.drop size := by
  rw [← h.unread]
  exact (List.drop_append_of_le_length hsize).symm

end

private theorem rounds_of_reader (hcut : cuts later) :
    Rounds crc32
      (fun e b q => ∃ r, Reader.Path crc32 cuts r₀ r ∧
        Tracks crc32 later e b q r)
      (fun ok e b q => ∃ r, Reader.Path crc32 cuts r₀ r ∧
        Tracks crc32 later e b q r ∧
        ((attempt crc32 maxFrameSize e b).Waits ∨ r.expected ≠ none) ∧
        (ok = false → ∃ r, Reader.Path crc32 cuts r₀ r ∧
          (r.front crc32).Fails)) where
  short := by
    rintro e b q ⟨r, hpath, htr⟩ hsh
    exact ⟨r, hpath, htr, Or.inl (by rw [hsh]; trivial), fun h => by cases h⟩
  refused := by
    rintro e b q err ⟨r, hpath, htr⟩ href
    have hfront := htr.front_eq href (by simp) (by simp)
    exact ⟨r, hpath, htr, Or.inl (by rw [href]; trivial),
      fun _ => ⟨r, hpath, by rw [hfront]; trivial⟩⟩
  incomplete := by
    rintro e b q size ⟨r, hpath, htr⟩ hwait
    have hsize := attempt_await [] hwait
    rw [List.append_nil, hwait] at hsize
    refine ⟨r, hpath, ⟨htr.unread, htr.delivered, ?_,
      Or.inr (attempt_eq_iff.mp hwait).1⟩, Or.inl (by rw [hsize]; trivial),
      fun h => by cases h⟩
    rw [← htr.front, ← htr.unread]
    exact attempt_await later hwait
  accepted := by
    rintro e b q size f ⟨r, hpath, htr⟩ hacc
    have hfront := htr.front_eq hacc (by simp) (by simp)
    exact ⟨_, hpath.tail (.accept hfront), htr.drop_unread (size_of_accepted hacc).1,
      by rw [htr.delivered], rfl, Or.inl rfl⟩
  corrupted := by
    rintro e b q size err ⟨r, hpath, htr⟩ hrej herr
    have hfront := htr.front_eq hrej (by simp) (by simp)
    have hdrop := (htr.drop_unread (size_of_corrupted hrej herr).1).symm
    rcases FrameDecoder.resync_cases (b.drop size) with hnil | ⟨i, hpos, hlen, -, hi, hskip⟩
    · -- all that is buffered is skipped
      refine ⟨_, hpath.tail (.skip (b.drop size).length hfront herr ?_ ?_), ?_,
        htr.delivered, rfl, Or.inl rfl⟩
      · rw [hdrop, List.take_left, hnil]
      · intro hzero
        rw [hdrop, List.eq_nil_of_length_eq_zero hzero]
        exact hcut
      · rw [hnil, hdrop, List.drop_left]
        rfl
    · refine ⟨_, hpath.tail (.skip i hfront herr ?_ (by omega)), ?_, htr.delivered,
        rfl, Or.inl rfl⟩
      · rw [hdrop, List.take_append_of_le_length (by omega)]
        exact hskip i (by omega)
      · rw [hi, hdrop]
        exact (List.drop_append_of_le_length (by omega)).symm
  failed := by
    rintro e b q size err ⟨r, hpath, htr⟩ hrej herr
    have hfront := htr.front_eq hrej (by simp) (by simp)
    obtain ⟨-, -, hlen, -⟩ := attempt_eq_iff.mp hrej
    exact ⟨_, hpath.tail (.fail hfront herr),
      ⟨htr.drop_unread hlen, htr.delivered, rfl, Or.inl rfl⟩,
      Or.inr (by simp), fun _ => ⟨r, hpath, by rw [hfront]; exact herr⟩⟩

end

variable {s : Session}

namespace Session

section

variable (crc32 : Bytes → Bytes → UInt32)

/-- Between two calls a session stands where some path of the reader leads, and if a call
has failed, such a path leads to what makes it fail. -/
structure Follows (cuts : Bytes → Prop) (r₀ : Reader) (later : Bytes) (s : Session) : Prop where
  limit : s.decoder.maxFrameSize = maxFrameSize
  reader : ∃ r, Reader.Path crc32 cuts r₀ r ∧
    Tracks crc32 later s.decoder.expectedFrameSize s.decoder.buffer
      (s.obtained ++ s.decoder.frameQueue) r ∧
    ((s.decoder.front crc32).Waits ∨ r.expected ≠ none)
  failures : s.failures = [] ∨ ∃ r, Reader.Path crc32 cuts r₀ r ∧
    (r.front crc32).Fails

variable {crc32} {cuts : Bytes → Prop} {r₀ : Reader}

theorem Follows.nextFrame (h : Follows crc32 cuts r₀ later s) :
    Follows crc32 cuts r₀ later (s.call crc32 .nextFrame) := by
  obtain ⟨⟨buffer, queue, expected, limit, stats⟩, obtained, failures⟩ := s
  cases queue with
  | nil => exact h
  | cons =>
    obtain ⟨r, hpath, htr, hwaits⟩ := h.reader
    refine ⟨h.limit, ⟨r, hpath, ⟨htr.unread, ?_, htr.front, htr.expected⟩,
      hwaits⟩, h.failures⟩
    rw [← htr.delivered]
    simp [call, FrameDecoder.nextFrame]

theorem Follows.decodeStream {data : Bytes} (h : Follows crc32 cuts r₀ (data ++ later) s)
    (hcut : cuts later) : Follows crc32 cuts r₀ later (s.call crc32 (.decodeStream data)) := by
  obtain ⟨r, hpath, htr, -⟩ := h.reader
  have hstart : Tracks crc32 later s.decoder.expectedFrameSize
      (s.decoder.buffer ++ data) (s.obtained ++ s.decoder.frameQueue) r :=
    ⟨by rw [List.append_assoc]; exact htr.unread, htr.delivered, htr.front,
      htr.expected.imp_right fun hlen => by rw [List.length_append]; omega⟩
  obtain ⟨hlim, ok, ⟨r', hpath', htr', hwaits, hfails⟩, hok⟩ :=
    (rounds_of_reader hcut).call s data h.limit ⟨r, hpath, hstart⟩
  refine ⟨hlim, ⟨r', hpath', htr', ?_⟩, ?_⟩
  · rwa [FrameDecoder.front, hlim]
  · cases ok with
    | true =>
      rw [hok rfl]
      exact h.failures
    | false => exact Or.inr (hfails rfl)

theorem Follows.run (calls : List DecoderCall)
    (h : Follows crc32 cuts r₀ (DecoderCall.received calls ++ later) s)
    (hcuts : ∀ rest, rest <:+ calls → cuts (DecoderCall.received rest ++ later)) :
    Follows crc32 cuts r₀ later (s.run crc32 calls) := by
  induction calls generalizing s with
  | nil => exact h
  | cons c calls ih =>
    have hrest : ∀ rest, rest <:+ calls → cuts (DecoderCall.received rest ++ later) :=
      fun rest hr => hcuts rest (hr.trans (List.suffix_cons c calls))
    rw [DecoderCall.received, List.flatMap_cons, List.append_assoc] at h
    cases c with
    | decodeStream =>
      exact ih (h.decodeStream (hrest calls (List.suffix_refl calls))) hrest
    | nextFrame => exact ih h.nextFrame hrest

private theorem follows_new (later : Bytes) : Follows crc32 cuts ⟨none, later, []⟩ later new :=
  ⟨rfl, ⟨_, .refl, ⟨rfl, rfl, rfl, Or.inl rfl⟩, Or.inl trivial⟩, Or.inl rfl⟩

/-- What comes after some of the calls. -/
def cutsOf (calls : List DecoderCall) (later : Bytes) : Prop :=
  ∃ rest, rest <:+ calls ∧ later = DecoderCall.received rest

theorem run_tracks (calls : List DecoderCall) :
    Follows crc32 (cutsOf calls) ⟨none, DecoderCall.received calls, []⟩ []
      (new.run crc32 calls) := by
  have hnew : Follows crc32 (cutsOf calls) ⟨none, _, []⟩ _ new :=
    follows_new (DecoderCall.received calls)
  refine Follows.run calls (by rwa [List.append_nil]) fun rest hrest => ?_
  exact ⟨rest, hrest, List.append_nil _⟩

theorem Follows.ended (h : Follows crc32 cuts r₀ [] s) :
    ∃ r, Reader.Path crc32 cuts r₀ r ∧ s.decoder.buffer = r.unread ∧
      s.delivered crc32 = r.delivered ∧
      (s.decoder.expectedFrameSize = r.expected ∨ frameHeaderSize ≤ r.unread.length) ∧
      ((r.front crc32).Waits ∨ r.expected ≠ none) := by
  obtain ⟨r, hpath, htr, hwaits⟩ := h.reader
  have hbuf : s.decoder.buffer = r.unread := by
    rw [← htr.unread, List.append_nil]
  have hexp := htr.expected
  rw [hbuf] at hexp
  refine ⟨r, hpath, hbuf, by rw [Session.delivered_eq, htr.delivered], hexp, ?_⟩
  rwa [FrameDecoder.front, h.limit, hbuf, htr.front] at hwaits

end

end Session

/-! ## Streams of valid frames -/

variable {f : Frame}

namespace Frame

private theorem declaredLen_header (h : f.payload.length ≤ maxPayloadSize.toNat) (rest : Bytes) :
    declaredLen (f.headerWithoutChecksum ++ rest) = f.payload.length := by
  have hsplit : f.headerWithoutChecksum ++ rest =
      (protocolMagic ++ (u8.put protocolVersion ++ (u16.put f.flags.bits ++ (u8.put 0 ++
        (u32.put f.streamId ++ (u32.put 0 ++ (u64.put f.sequence ++
          u64.put f.timestamp))))))) ++ (u32.put f.payloadSize ++ rest) := by
    rw [headerWithoutChecksum]
    simp only [List.append_assoc]
  have hread := u32.read_put (protocolMagic ++ (u8.put protocolVersion ++
    (u16.put f.flags.bits ++ (u8.put 0 ++ (u32.put f.streamId ++ (u32.put 0 ++
      (u64.put f.sequence ++ u64.put f.timestamp))))))) f.payloadSize rest
  simp only [List.length_append, Word.length_put, u8_bytes, u16_bytes, u32_bytes,
    u64_bytes, protocolMagic, List.length_cons, List.length_nil, Nat.reduceAdd] at hread
  rw [declaredLen, hsplit]
  exact (congrArg UInt32.toNat hread).trans (toNat_payloadSize h)

end Frame

section

variable {crc32 : Bytes → Bytes → UInt32}

private theorem settledSize_of_declaredLen {data : Bytes}
    (h : Frame.declaredLen data ≤ maxPayloadSize.toNat) :
    settledSize maxFrameSize none data = .ok (frameHeaderSize + Frame.declaredLen data) := by
  have hlarge : ¬ u32.read 32 data > maxPayloadSize := by
    rw [gt_iff_lt, UInt32.lt_iff_toNat_lt]
    exact Nat.not_lt.mpr h
  have hlim : ¬ frameHeaderSize + Frame.declaredLen data > maxFrameSize := by
    unfold maxFrameSize
    omega
  rw [settledSize.eq_def]
  dsimp only
  rw [if_neg hlarge, if_neg hlim]

theorem attempt_bytesWith (h : f.Valid) (checksum : UInt32) (more : Bytes) :
    attempt crc32 maxFrameSize none (f.bytesWith checksum ++ more) =
      if checksum ≠ crc32 f.headerWithoutChecksum f.payload then
        .rejected (f.bytesWith checksum).length (.checksumMismatch checksum
          (crc32 f.headerWithoutChecksum f.payload))
      else .accepted (f.bytesWith checksum).length f := by
  have hlen := Frame.length_bytesWith f checksum
  have hdeclared : Frame.declaredLen (f.bytesWith checksum) = f.payload.length :=
    Frame.declaredLen_header h.2 _
  have hsize : settledSize maxFrameSize none (f.bytesWith checksum) =
      .ok (f.bytesWith checksum).length := by
    rw [settledSize_of_declaredLen (by rw [hdeclared]; exact h.2), hdeclared, hlen]
  have hread := Frame.deserialize_bytesWith crc32 h checksum
  split
  · next hne =>
      rw [if_pos hne] at hread
      refine attempt_append more (attempt_eq_iff.mpr ⟨by omega, hsize, Nat.le_refl _, ?_⟩)
        (by simp) (by simp)
      rwa [List.take_length]
  · next heq =>
      rw [if_neg heq] at hread
      refine attempt_append more (attempt_eq_iff.mpr ⟨by omega, hsize, Nat.le_refl _, ?_⟩)
        (by simp) (by simp)
      rwa [List.take_length]

private theorem attempt_serialize (h : f.Valid) (more : Bytes) :
    attempt crc32 maxFrameSize none (f.serialize crc32 ++ more) =
      .accepted (f.serialize crc32).length f :=
  (attempt_bytesWith h _ more).trans (if_neg (not_not.mpr rfl))

variable {cuts : Bytes → Prop}

theorem Reader.path_of_waits {r' : Reader} (hwaits : (r.front crc32).Waits)
    (hpath : Reader.Path crc32 cuts r r') : r' = r := by
  rcases hpath.cases_head with heq | ⟨r₁, hstep, -⟩
  · exact heq.symm
  · cases hstep with
    | accept h | skip n h | fail h => rw [h] at hwaits; cases hwaits

theorem Reader.path_of_frames {frames past : List Frame} {rest : Bytes}
    (hvalid : ∀ f ∈ frames, f.Valid) (hpath : Reader.Path crc32 cuts
      ⟨none, frames.flatMap (Frame.serialize crc32) ++ rest, past⟩ r) :
    (∃ size f, r.expected = none ∧ r.front crc32 = .accepted size f) ∨
      Reader.Path crc32 cuts ⟨none, rest, past ++ frames⟩ r := by
  induction frames generalizing past with
  | nil => exact Or.inr (by simpa using hpath)
  | cons f frames ih =>
    have hacc : Reader.front crc32
        ⟨none, (f :: frames).flatMap (Frame.serialize crc32) ++ rest, past⟩ =
        .accepted (f.serialize crc32).length f := by
      rw [List.flatMap_cons, List.append_assoc]
      exact attempt_serialize (hvalid f (by simp)) _
    rcases hpath.cases_head with rfl | ⟨r₁, hstep, hrest⟩
    · exact Or.inl ⟨_, _, rfl, hacc⟩
    · cases hstep with
      | accept h =>
        cases hacc.symm.trans h
        have := ih (fun g hg => hvalid g (by simp [hg]))
          (by simpa only [List.flatMap_cons, List.append_assoc, List.drop_left] using hrest)
        rwa [List.append_assoc, List.singleton_append] at this
      | skip n h | fail h => cases hacc.symm.trans h

theorem Session.Follows.frames {frames past : List Frame} (hvalid : ∀ f ∈ frames, f.Valid)
    (h : s.Follows crc32 cuts ⟨none, frames.flatMap (Frame.serialize crc32), past⟩ []) :
    s.failures = [] ∧ s.delivered crc32 = past ++ frames ∧
      s.decoder.buffer = [] := by
  have hends : ∀ {r : Reader}, Reader.Path crc32 cuts
      ⟨none, frames.flatMap (Frame.serialize crc32), past⟩ r →
      (∃ size f, r.expected = none ∧ r.front crc32 = .accepted size f) ∨
        r = ⟨none, [], past ++ frames⟩ := by
    intro r hpath
    rw [← List.append_nil (frames.flatMap _)] at hpath
    exact (Reader.path_of_frames hvalid hpath).imp_right (Reader.path_of_waits trivial)
  obtain ⟨r, hpath, hbuf, hdel, -, hwaits⟩ := h.ended
  refine ⟨?_, ?_⟩
  · rcases h.failures with hnone | ⟨r, hpath, hfails⟩
    · exact hnone
    · rcases hends hpath with ⟨size, f, -, hacc⟩ | rfl
      · rw [hacc] at hfails
        cases hfails
      · cases hfails
  · rcases hends hpath with ⟨size, f, hnone, hacc⟩ | rfl
    · -- a complete frame would have been decoded
      rw [hacc, hnone] at hwaits
      simp [Attempt.Waits] at hwaits
    · exact ⟨hdel, hbuf⟩

end

/-- Frames that an encoder emits, one by one and in batches, are delivered in the order of
emission however their bytes are cut into chunks and whenever frames are taken off the
queue; no call fails, and nothing stays in the buffer. -/
theorem streaming_round_trip (crc32 : Bytes → Bytes → UInt32)
    (maxBatchSize : Nat) (encoderCalls : List EncoderCall)
    (hvalid : ∀ c ∈ encoderCalls, c.Valid) (decoderCalls : List DecoderCall)
    (hrecv : DecoderCall.received decoderCalls =
      ((FrameEncoder.new.setMaxBatchSize maxBatchSize).emissions crc32
        encoderCalls).flatten) :
    let s := Session.new.run crc32 decoderCalls
    s.failures = [] ∧
      s.delivered crc32 = EncoderCall.emitted maxBatchSize [] encoderCalls ∧
      s.decoder.buffer = [] := by
  have hbytes := FrameEncoder.flatten_emissions crc32
    (FrameEncoder.new.setMaxBatchSize maxBatchSize) encoderCalls
  have hrun : Session.Follows crc32 _ _ _ _ := Session.run_tracks decoderCalls
  rw [hrecv, hbytes] at hrun
  exact hrun.frames (EncoderCall.valid_of_mem_emitted (by simp [FrameEncoder.new,
    FrameEncoder.setMaxBatchSize]) hvalid)

def sampleCalls : List EncoderCall :=
  [.addToBatch sampleFrame, .encode sampleFrame, .addToBatch sampleFrame, .addToBatch sampleFrame]

/-- Three frames come out of 129 bytes that are cut inside the first header. -/
theorem streaming_round_trip_sample :
    let bytes := ((FrameEncoder.new.setMaxBatchSize 2).emissions lengthSum sampleCalls).flatten
    let s := Session.new.run lengthSum
      [.decodeStream (bytes.take 10), .nextFrame, .decodeStream (bytes.drop 10)]
    bytes.length = 129 ∧ s.failures = [] ∧
      s.delivered lengthSum = [sampleFrame, sampleFrame, sampleFrame] ∧
      s.decoder.buffer = [] :=
  ⟨by decide +kernel, streaming_round_trip lengthSum 2 sampleCalls
    (by simp [sampleCalls, EncoderCall.Valid, sampleFrame_valid]) _
    (by simp [DecoderCall.received, DecoderCall.data])⟩

end Kaelix.Core.Protocol
