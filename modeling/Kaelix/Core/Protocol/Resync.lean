import Kaelix.Core.Protocol.Streaming
import Mathlib.Algebra.Order.BigOperators.Group.List
import Mathlib.Algebra.Order.Group.Nat

/-!
# What a rejected frame costs

`recover_from_corruption` looks for magic bytes from the second buffered byte on, but the bytes of
the corrupted frame have left the buffer before.  So the frame behind it is lost whenever a byte
of it has been received, and what is delivered depends on the chunks.
-/

namespace Kaelix.Core.Protocol

open Lib

variable {crc32 : Bytes → Bytes → UInt32}

/-! ## Bytes are never delivered twice -/

section

variable (frames : List Frame)

def weight : Nat :=
  (frames.map fun f => frameHeaderSize + f.payload.length).sum

theorem weight_append (xs ys : List Frame) : weight (xs ++ ys) = weight xs + weight ys := by
  simp [weight]

private theorem weight_concat (f : Frame) :
    weight (frames ++ [f]) = weight frames + (frameHeaderSize + f.payload.length) := by
  simp [weight]

theorem weight_le_of_sublist {xs ys : List Frame} (h : xs.Sublist ys) : weight xs ≤ weight ys :=
  (h.map _).sum_le_sum (fun _ _ => Nat.zero_le _)

theorem length_flatMap_serialize :
    (frames.flatMap (Frame.serialize crc32)).length = weight frames := by
  induction frames with
  | nil => rfl
  | cons f frames ih =>
    rw [List.flatMap_cons, List.length_append, ih, Frame.length_serialize]
    rfl

end

variable {cuts : Bytes → Prop} {r r' : Reader}

theorem Reader.Step.weight_le (h : Reader.Step crc32 cuts r r') :
    weight r'.delivered + r'.unread.length ≤ weight r.delivered + r.unread.length := by
  cases h with
  | accept hacc =>
    obtain ⟨hlen, hsize⟩ := size_of_accepted hacc
    rw [weight_concat, List.length_drop]
    omega
  | skip n h | fail h =>
    simp only [List.length_drop]
    omega

theorem Reader.Path.weight_le (h : Reader.Path crc32 cuts r r') :
    weight r'.delivered + r'.unread.length ≤ weight r.delivered + r.unread.length := by
  induction h with
  | refl => exact Nat.le_refl _
  | tail _ hstep ih => exact Nat.le_trans hstep.weight_le ih

/-! ## One corrupted frame -/

variable {checksum : UInt32} {f : Frame} {rest : Bytes}

theorem Reader.path_of_corrupted (hvalid : f.Valid)
    (hne : checksum ≠ crc32 f.headerWithoutChecksum f.payload) {past : List Frame}
    (hpath : Reader.Path crc32 cuts ⟨none, f.bytesWith checksum ++ rest, past⟩ r) :
    (∃ size e, r.expected = none ∧ r.front crc32 = .rejected size e ∧
        e.isCorruption = true) ∨
      ∃ n, (n = 0 → cuts rest) ∧
        Reader.Path crc32 cuts ⟨none, rest.drop n, past⟩ r := by
  have hrej : Reader.front crc32 ⟨none, f.bytesWith checksum ++ rest, past⟩ = _ :=
    (attempt_bytesWith hvalid checksum rest).trans (if_pos hne)
  rcases hpath.cases_head with rfl | ⟨r₁, hstep, hrest⟩
  · exact Or.inl ⟨_, _, rfl, hrej, rfl⟩
  · cases hstep with
    | accept h => cases hrej.symm.trans h
    | skip n h he hskip hcut =>
      cases hrej.symm.trans h
      simp only [List.drop_left] at hcut hrest
      exact Or.inr ⟨n, hcut, hrest⟩
    | fail h he =>
      cases hrej.symm.trans h
      cases he

variable {before : List Frame} {s : Session}

section

variable (hbef : ∀ g ∈ before, g.Valid) (hvalid : f.Valid)
  (hne : checksum ≠ crc32 f.headerWithoutChecksum f.payload)
include hbef hvalid hne

theorem Session.Follows.corrupted (h : s.Follows crc32 cuts
      ⟨none, before.flatMap (Frame.serialize crc32) ++ (f.bytesWith checksum ++ rest), []⟩ []) :
    ∃ r n, (n = 0 → cuts rest) ∧
      Reader.Path crc32 cuts ⟨none, rest.drop n, before⟩ r ∧
      s.decoder.buffer = r.unread ∧ s.delivered crc32 = r.delivered ∧
      (s.decoder.expectedFrameSize = r.expected ∨ frameHeaderSize ≤ r.unread.length) := by
  obtain ⟨r, hpath, hbuf, hdel, hexp, hwaits⟩ := h.ended
  rcases Reader.path_of_frames hbef hpath with ⟨size, g, hnone, hacc⟩ | hpath
  · rw [hacc, hnone] at hwaits
    simp [Attempt.Waits] at hwaits
  rcases Reader.path_of_corrupted hvalid hne hpath with ⟨size, e, hnone, hrej, -⟩ | hpath
  · rw [hrej, hnone] at hwaits
    simp [Attempt.Waits] at hwaits
  obtain ⟨n, hcut, hpath⟩ := hpath
  exact ⟨r, n, hcut, hpath, hbuf, hdel, hexp⟩

theorem Session.Follows.end_of_corrupted (h : s.Follows crc32 cuts
      ⟨none, before.flatMap (Frame.serialize crc32) ++ (f.bytesWith checksum ++ []), []⟩ [])
    (cuts' : Bytes → Prop) (later : Bytes) :
    s.Follows crc32 cuts' ⟨none, later, before⟩ later := by
  have hends : ∀ {r : Reader} {n : Nat}, Reader.Path crc32 cuts
      ⟨none, [].drop n, before⟩ r → r = ⟨none, [], before⟩ := by
    intro r n hpath
    rw [List.drop_nil] at hpath
    exact Reader.path_of_waits trivial hpath
  obtain ⟨r, n, -, hpath, hbuf, hdel, hexp⟩ := h.corrupted hbef hvalid hne
  obtain rfl := hends hpath
  have hnone : s.decoder.expectedFrameSize = none := by
    rcases hexp with hnone | hlen
    · exact hnone
    · cases hlen
  rw [Session.delivered_eq] at hdel
  refine ⟨h.limit, ⟨_, .refl, ⟨by rw [hbuf]; rfl, hdel, by rw [hnone]; rfl,
    Or.inl hnone⟩, Or.inl ?_⟩, ?_⟩
  · rw [FrameDecoder.front, hbuf]
    trivial
  · rcases h.failures with hnil | ⟨r, hpath, hfails⟩
    · exact Or.inl hnil
    rcases Reader.path_of_frames hbef hpath with ⟨size, g, -, hacc⟩ | hpath
    · rw [hacc] at hfails
      cases hfails
    rcases Reader.path_of_corrupted hvalid hne hpath with ⟨size, e, -, hrej, he⟩ | hpath
    · rw [hrej] at hfails
      cases he.symm.trans hfails
    · obtain ⟨n, -, hpath⟩ := hpath
      rw [hends hpath] at hfails
      cases hfails

end

section

variable {before after : List Frame} {f : Frame} {checksum : UInt32}

variable (hbef : ∀ g ∈ before, g.Valid)
include hbef

theorem Session.cut_of_sublist (hvalid : f.Valid)
    (hne : checksum ≠ crc32 f.headerWithoutChecksum f.payload)
    {calls : List DecoderCall}
    (hrecv : DecoderCall.received calls =
      before.flatMap (Frame.serialize crc32) ++
        (f.bytesWith checksum ++ after.flatMap (Frame.serialize crc32)))
    (hsub : (before ++ after).Sublist
      ((Session.new.run crc32 calls).delivered crc32)) :
    Session.cutsOf calls (after.flatMap (Frame.serialize crc32)) := by
  have hrun : Session.Follows crc32 _ _ _ _ := Session.run_tracks calls
  rw [hrecv] at hrun
  obtain ⟨r, n, hcut, hpath, -, hdel, -⟩ := hrun.corrupted hbef hvalid hne
  by_contra hno
  -- at least one byte behind the corrupted frame is lost
  have hn : n ≠ 0 := fun hzero => hno (hcut hzero)
  have hpos : 0 < (after.flatMap (Frame.serialize crc32)).length := by
    by_contra hnil
    refine hno ⟨[], List.nil_suffix, ?_⟩
    exact List.eq_nil_of_length_eq_zero (by omega)
  have hle := hpath.weight_le
  have hsub' := weight_le_of_sublist hsub
  rw [hdel, weight_append] at hsub'
  simp only [List.length_drop, length_flatMap_serialize] at hle hpos
  omega

theorem Session.delivered_of_cut (hafter : ∀ g ∈ after, g.Valid) (hvalid : f.Valid)
    (hne : checksum ≠ crc32 f.headerWithoutChecksum f.payload)
    {first rest : List DecoderCall}
    (hfirst : DecoderCall.received first =
      before.flatMap (Frame.serialize crc32) ++ f.bytesWith checksum)
    (hrest : DecoderCall.received rest = after.flatMap (Frame.serialize crc32)) :
    (Session.new.run crc32 (first ++ rest)).delivered crc32 =
      before ++ after := by
  have hrun : Session.Follows crc32 _ _ _ _ := Session.run_tracks first
  rw [hfirst, ← List.append_nil (f.bytesWith checksum)] at hrun
  have hstart := hrun.end_of_corrupted hbef hvalid hne (fun _ => True)
    (DecoderCall.received rest ++ [])
  have hend := hstart.run rest (fun _ _ => trivial)
  rw [List.append_nil, hrest] at hend
  rw [Session.run, List.foldl_append]
  exact (hend.frames hafter).2.1

end

/-- When the checksum of one frame is altered, all other frames are delivered exactly when
a call ends where this frame ends. -/
theorem corruption_contained_iff (crc32 : Bytes → Bytes → UInt32)
    (before after : List Frame) (f : Frame) (checksum : UInt32)
    (hbef : ∀ g ∈ before, g.Valid) (hafter : ∀ g ∈ after, g.Valid) (hvalid : f.Valid)
    (hne : checksum ≠ crc32 f.headerWithoutChecksum f.payload)
    (calls : List DecoderCall)
    (hrecv : DecoderCall.received calls =
      before.flatMap (Frame.serialize crc32) ++
        (f.bytesWith checksum ++ after.flatMap (Frame.serialize crc32))) :
    (before ++ after).Sublist
        ((Session.new.run crc32 calls).delivered crc32) ↔
      ∃ first, first <+: calls ∧ DecoderCall.received first =
        before.flatMap (Frame.serialize crc32) ++ f.bytesWith checksum := by
  constructor
  · intro hsub
    obtain ⟨rest, ⟨first, rfl⟩, hrest⟩ := Session.cut_of_sublist hbef hvalid hne hrecv hsub
    refine ⟨first, List.prefix_append first rest, ?_⟩
    rw [DecoderCall.received_append, hrest, ← List.append_assoc] at hrecv
    exact List.append_cancel_right hrecv
  · rintro ⟨first, ⟨rest, rfl⟩, hfirst⟩
    rw [DecoderCall.received_append, hfirst, ← List.append_assoc] at hrecv
    rw [Session.delivered_of_cut hbef hafter hvalid hne hfirst
      (List.append_cancel_left hrecv)]

/-- With the cut in the right place the frames around a corrupted one are delivered. -/
theorem corruption_contained_sample :
    [sampleFrame, sampleFrame].Sublist
      ((Session.new.run lengthSum
        [.decodeStream (sampleFrame.serialize lengthSum ++ sampleFrame.bytesWith 0),
          .decodeStream (sampleFrame.serialize lengthSum)]).delivered lengthSum) :=
  (corruption_contained_iff lengthSum [sampleFrame] [sampleFrame] sampleFrame 0
    (by simp [sampleFrame_valid]) (by simp [sampleFrame_valid]) sampleFrame_valid
    (by decide) _ (by simp [DecoderCall.received, DecoderCall.data])).mpr
    ⟨[.decodeStream (sampleFrame.serialize lengthSum ++ sampleFrame.bytesWith 0)],
      by simp, by simp [DecoderCall.received, DecoderCall.data]⟩

theorem not_delivered_behind_corrupted (crc32 : Bytes → Bytes → UInt32) (hne : checksum ≠ crc32
      sampleFrame.headerWithoutChecksum sampleFrame.payload) :
    ¬ [sampleFrame].Sublist ((Session.new.run crc32
      [.decodeStream (sampleFrame.bytesWith checksum ++
        sampleFrame.serialize crc32)]).delivered crc32) := by
  intro hsub
  have hcut : Session.cutsOf _ ([sampleFrame].flatMap _) :=
    Session.cut_of_sublist (fun g (hg : g ∈ []) => by cases hg) sampleFrame_valid hne
      (by simp [DecoderCall.received, DecoderCall.data]) hsub
  obtain ⟨rest, hrest, hcut⟩ := hcut
  have hlen := congrArg List.length hcut
  rcases List.suffix_cons_iff.mp hrest with rfl | hnil
  · simp only [DecoderCall.received, DecoderCall.data, List.flatMap_cons, List.flatMap_nil,
      List.append_nil, List.length_append, Frame.length_bytesWith, frameHeaderSize] at hlen
    omega
  · rw [List.suffix_nil.mp hnil] at hlen
    simp only [DecoderCall.received, List.flatMap_cons, List.flatMap_nil, List.append_nil,
      Frame.length_serialize, frameHeaderSize, List.length_nil] at hlen
    omega

/-- No checksum keeps the damage to the corrupted frame. -/
theorem corruption_not_contained :
    ¬ ∃ crc32 : Bytes → Bytes → UInt32,
      ∀ (before after : List Frame) (f : Frame) (checksum : UInt32)
        (calls : List DecoderCall), (∀ g ∈ before, g.Valid) → (∀ g ∈ after, g.Valid) →
        f.Valid → checksum ≠ crc32 f.headerWithoutChecksum f.payload →
        DecoderCall.received calls =
          before.flatMap (Frame.serialize crc32) ++
            (f.bytesWith checksum ++ after.flatMap (Frame.serialize crc32)) →
        (before ++ after).Sublist
          ((Session.new.run crc32 calls).delivered crc32) := by
  rintro ⟨crc32, h⟩
  obtain ⟨checksum, hne⟩ := sampleFrame.exists_wrong_checksum crc32
  exact not_delivered_behind_corrupted crc32 hne
    (h [] [sampleFrame] sampleFrame checksum _ (by simp) (by simp [sampleFrame_valid])
      sampleFrame_valid hne (by simp [DecoderCall.received, DecoderCall.data]))

end Kaelix.Core.Protocol
