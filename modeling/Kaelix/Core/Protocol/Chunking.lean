import Kaelix.Core.Protocol.Resync

/-!
# When chunks do not matter

After a frame has been rejected, the decoder goes on at a place that depends on the bytes it
happens to hold, or only with the next call.
-/

namespace Kaelix.Core.Protocol

open Lib

/-! ## What follows a rejected frame -/

variable {bytes : Bytes} {cuts : Bytes → Prop}

namespace Reader

section

variable (crc32 : Bytes → Bytes → UInt32)

/-- A frame is read and delivered. -/
def Accepts (r r' : Reader) : Prop :=
  ∃ size f, r.front crc32 = .accepted size f ∧
    r' = ⟨none, r.unread.drop size, r.delivered ++ [f]⟩

/-- A frame is rejected, and the reader goes on. -/
def Rejects (r r' : Reader) : Prop :=
  (∃ size e, r.front crc32 = .rejected size e) ∧
    Step crc32 (fun _ => True) r r'

/-- No place where the reader can go on behind the first rejected frame, and behind those
rejected next, is the start of a frame. -/
def NothingResumes (bytes : Bytes) : Prop :=
  ∀ r₁ r, Relation.ReflTransGen (Accepts crc32) ⟨none, bytes, []⟩ r₁ →
    Relation.TransGen (Rejects crc32) r₁ r →
    ∀ size f, r.front crc32 ≠ .accepted size f

/-- The frames that are read one after the other. -/
def Reads (bytes : Bytes) (frames : List Frame) : Prop :=
  ∃ r, Relation.ReflTransGen (Accepts crc32) ⟨none, bytes, []⟩ r ∧
    r.delivered = frames ∧ ∀ size f, r.front crc32 ≠ .accepted size f

end

variable {crc32 : Bytes → Bytes → UInt32}

private theorem accepts_rightUnique : Relator.RightUnique (Accepts crc32) := by
  rintro r r₁ r₂ ⟨size, f, hf, rfl⟩ ⟨size', f', hf', rfl⟩
  cases hf.symm.trans hf'
  rfl

variable {r r' : Reader}

theorem Rejects.delivered_eq (h : Rejects crc32 r r') : r'.delivered = r.delivered := by
  obtain ⟨⟨size, e, hrej⟩, hstep⟩ := h
  cases hstep with
  | accept hacc => cases hrej.symm.trans hacc
  | _ => rfl

theorem delivered_of_rejects (h : Relation.ReflTransGen (Rejects crc32) r r') :
    r'.delivered = r.delivered := by
  induction h with
  | refl => rfl
  | tail _ hstep ih => exact hstep.delivered_eq.trans ih

theorem Reads.unique {xs ys : List Frame} (hx : Reads crc32 bytes xs) (hy : Reads crc32 bytes ys) :
    xs = ys := by
  obtain ⟨r, hr, rfl, hend⟩ := hx
  obtain ⟨r', hr', rfl, hend'⟩ := hy
  have hstop : ∀ {a b : Reader}, (∀ size f, a.front crc32 ≠ .accepted size f) →
      Relation.ReflTransGen (Accepts crc32) a b → a = b := by
    intro a b ha hab
    rcases hab.cases_head with heq | ⟨c, ⟨size, f, hf, -⟩, -⟩
    · exact heq
    · exact absurd hf (ha size f)
  rcases Relation.ReflTransGen.total_of_right_unique accepts_rightUnique hr hr' with h | h
  · rw [hstop hend h]
  · rw [hstop hend' h]

theorem NothingResumes.path (h : NothingResumes crc32 bytes)
    (hpath : Path crc32 cuts ⟨none, bytes, []⟩ r) :
    ∃ r₁, Relation.ReflTransGen (Accepts crc32) ⟨none, bytes, []⟩ r₁ ∧
      Relation.ReflTransGen (Rejects crc32) r₁ r := by
  induction hpath with
  | refl => exact ⟨_, .refl, .refl⟩
  | @tail r r' _ hstep ih =>
    obtain ⟨r₁, hread, hrej⟩ := ih
    cases hstep with
    | accept hacc =>
      rcases Relation.reflTransGen_iff_eq_or_transGen.mp hrej with rfl | hrej
      · exact ⟨_, hread.tail ⟨_, _, hacc, rfl⟩, .refl⟩
      · exact absurd hacc (h r₁ r hread hrej _ _)
    | skip n hr he hskip =>
      exact ⟨r₁, hread, hrej.tail ⟨⟨_, _, hr⟩, .skip n hr he hskip fun _ => trivial⟩⟩
    | fail hr he => exact ⟨r₁, hread, hrej.tail ⟨⟨_, _, hr⟩, .fail hr he⟩⟩

private theorem expected_of_accepts (h : Relation.ReflTransGen (Accepts crc32) r r')
    (hr : r.expected = none) : r'.expected = none := by
  induction h with
  | refl => exact hr
  | tail _ hstep =>
    obtain ⟨size, f, -, rfl⟩ := hstep
    rfl

end Reader

variable {crc32 : Bytes → Bytes → UInt32}

theorem Session.reads_of_nothingResumes (calls : List DecoderCall)
    (h : Reader.NothingResumes crc32 (DecoderCall.received calls)) :
    Reader.Reads crc32 (DecoderCall.received calls)
      ((new.run crc32 calls).delivered crc32) := by
  obtain ⟨r, hpath, -, hdel, -, hwaits⟩ := (run_tracks calls).ended
  obtain ⟨r₁, hread, hrej⟩ := h.path hpath
  refine ⟨r₁, hread, by rw [hdel, Reader.delivered_of_rejects hrej], ?_⟩
  intro size f hacc
  rcases Relation.ReflTransGen.cases_head hrej with rfl | ⟨r₂, ⟨⟨n, e, hr⟩, -⟩, -⟩
  · rw [hacc, Reader.expected_of_accepts hread rfl] at hwaits
    simp [Attempt.Waits] at hwaits
  · cases hacc.symm.trans hr

/-! ## Building chunks -/

/-- Between two calls the decoder holds no bytes and stands where the reader stands. -/
structure Session.StandsAt (s : Session) (r : Reader) : Prop where
  limit : s.decoder.maxFrameSize = maxFrameSize
  expected : s.decoder.expectedFrameSize = r.expected
  buffer : s.decoder.buffer = []
  delivered : s.obtained ++ s.decoder.frameQueue = r.delivered

/-- A chunk that is one frame for the decoder, together with what is skipped behind it. -/
def Lands (crc32 : Bytes → Bytes → UInt32) (chunk : Bytes) (r r' : Reader) : Prop :=
  match attempt crc32 maxFrameSize r.expected chunk with
  | .accepted size f =>
    chunk.drop size = [] ∧ r'.expected = none ∧ r'.delivered = r.delivered ++ [f]
  | .rejected size e =>
    if e.isCorruption then
      FrameDecoder.resync (chunk.drop size) = [] ∧ r'.expected = none ∧
        r'.delivered = r.delivered
    else
      chunk.drop size = [] ∧ r'.expected = some size ∧ r'.delivered = r.delivered
  | _ => False

variable {r r' : Reader}

private theorem rounds_of_lands {chunk : Bytes} (h : Lands crc32 chunk r r') :
    Rounds crc32
      (fun e b q => (e = r.expected ∧ b = chunk ∧ q = r.delivered) ∨
        (e = r'.expected ∧ b = [] ∧ q = r'.delivered))
      (fun _ e b q => e = r'.expected ∧ b = [] ∧ q = r'.delivered) where
  short := by
    rintro e b q (⟨rfl, rfl, rfl⟩ | hend) ha
    · rw [Lands, ha] at h
      exact h.elim
    · exact hend
  refused := by
    rintro e b q err (⟨rfl, rfl, rfl⟩ | ⟨rfl, rfl, rfl⟩) ha
    · rw [Lands, ha] at h
      exact h.elim
    · cases ha
  incomplete := by
    rintro e b q size (⟨rfl, rfl, rfl⟩ | ⟨rfl, rfl, rfl⟩) ha
    · rw [Lands, ha] at h
      exact h.elim
    · cases ha
  accepted := by
    rintro e b q size f (⟨rfl, rfl, rfl⟩ | ⟨rfl, rfl, rfl⟩) ha
    · rw [Lands, ha] at h
      exact Or.inr ⟨h.2.1.symm, h.1, h.2.2.symm⟩
    · cases ha
  corrupted := by
    rintro e b q size err (⟨rfl, rfl, rfl⟩ | ⟨rfl, rfl, rfl⟩) ha he
    · simp only [Lands, ha, he, if_true] at h
      exact Or.inr ⟨h.2.1.symm, h.1, h.2.2.symm⟩
    · cases ha
  failed := by
    rintro e b q size err (⟨rfl, rfl, rfl⟩ | ⟨rfl, rfl, rfl⟩) ha he
    · simp only [Lands, ha, he, Bool.false_eq_true, if_false] at h
      exact ⟨h.2.1.symm, h.1, h.2.2.symm⟩
    · cases ha

theorem Session.StandsAt.call {chunk : Bytes} {s : Session}
    (hs : s.StandsAt r) (h : Lands crc32 chunk r r') :
    (s.call crc32 (.decodeStream chunk)).StandsAt r' := by
  obtain ⟨hlim, _, ⟨hexp, hbuf, hdel⟩, -⟩ :=
    (rounds_of_lands h).call s chunk hs.limit
      (Or.inl ⟨hs.expected, by rw [hs.buffer]; rfl, hs.delivered⟩)
  exact ⟨hlim, hexp, hbuf, hdel⟩

variable {size : Nat}

private theorem attempt_take {limit : Nat} {expected : Option Nat} {data : Bytes} {a : Attempt}
    (h : attempt crc32 limit expected data = a) (hsize : frameHeaderSize ≤ size)
    (ha : (∃ f, a = .accepted size f) ∨ ∃ e, a = .rejected size e) :
    attempt crc32 limit expected (data.take size) = a := by
  have hfinds := attempt_eq_iff.mp h
  have hset : size ≤ data.length →
      settledSize limit expected (data.take size) = settledSize limit expected data := by
    intro hle
    have hparts : settledSize limit expected (data.take size ++ data.drop size) = _ :=
      settledSize_append (data.drop size) (by rwa [List.length_take_of_le hle])
    rwa [List.take_append_drop, eq_comm] at hparts
  apply attempt_eq_iff.mpr
  -- both outcomes are read off the first `size` bytes
  rcases ha with ⟨f, rfl⟩ | ⟨e, rfl⟩
  all_goals
    obtain ⟨-, hsz, hle, hf⟩ := hfinds
    have hlen := List.length_take_of_le hle
    exact ⟨by omega, (hset hle).trans hsz, by omega, by
      rwa [List.take_take, Nat.min_self]⟩

/-- Sizes are remembered of frames with a full header. -/
def Reader.Sane (r : Reader) : Prop := ∀ size, r.expected = some size → frameHeaderSize ≤ size

variable {r : Reader}

theorem Reader.sane_of_none (h : r.expected = none) : r.Sane :=
  fun _ hsome => by cases h.symm.trans hsome

variable {e : ProtocolError}

theorem Reader.Sane.size_of_rejected (h : r.Sane) (hr : r.front crc32 = .rejected size e) :
    frameHeaderSize ≤ size := by
  obtain ⟨-, hsize, -⟩ := attempt_eq_iff.mp hr
  cases hexp : r.expected with
  | some =>
    rw [hexp] at hsize
    cases hsize
    exact h _ hexp
  | none =>
    rw [hexp, settledSize.eq_def] at hsize
    dsimp only at hsize
    split at hsize
    · cases hsize
    · split at hsize
      · cases hsize
      · cases hsize
        exact Nat.le_add_right _ _

theorem Reader.Sane.step (h : r.Sane) (hstep : Reader.Step crc32 cuts r r') : r'.Sane := by
  cases hstep with
  | accept | skip => intro size hsome; cases hsome
  | fail hr =>
    intro size hsome
    cases hsome
    exact h.size_of_rejected hr

theorem Reader.Step.exists_chunk (hstep : Reader.Step crc32 cuts r r') (hsane : r.Sane) :
    ∃ chunk, r.unread = chunk ++ r'.unread ∧ Lands crc32 chunk r r' := by
  cases hstep with
  | @accept size f hacc =>
    have hsize := size_of_accepted hacc
    have htake := attempt_take hacc (by omega) (Or.inl ⟨f, rfl⟩)
    refine ⟨r.unread.take size, (List.take_append_drop _ _).symm, ?_⟩
    rw [Lands, htake]
    exact ⟨List.drop_take_self, rfl, rfl⟩
  | @skip size e n hr he hskip _ =>
    have hsize := size_of_corrupted hr he
    have htake := attempt_take hr hsize.2 (Or.inr ⟨e, rfl⟩)
    have happ := attempt_append ((r.unread.drop size).take n) htake (by simp) (by simp)
    refine ⟨r.unread.take size ++ (r.unread.drop size).take n, ?_, ?_⟩
    · rw [List.append_assoc, List.take_append_drop, List.take_append_drop]
    · simp only [Lands, happ, he, if_true]
      rw [List.drop_left' (List.length_take_of_le hsize.1)]
      exact ⟨hskip, trivial, trivial⟩
  | @fail size e hr he =>
    have htake := attempt_take hr (hsane.size_of_rejected hr) (Or.inr ⟨e, rfl⟩)
    refine ⟨r.unread.take size, (List.take_append_drop _ _).symm, ?_⟩
    simp only [Lands, htake, he, Bool.false_eq_true, if_false]
    exact ⟨List.drop_take_self, trivial, trivial⟩

/-! ## Two ways of cutting -/

def feed (chunks : List Bytes) : List DecoderCall := chunks.map .decodeStream

theorem received_feed (chunks : List Bytes) :
    DecoderCall.received (feed chunks) = chunks.flatten := by
  induction chunks with
  | nil => rfl
  | cons c chunks ih => exact congrArg (c ++ ·) ih

/-- Some chunks lead every decoder from one place to another. -/
def Leads (crc32 : Bytes → Bytes → UInt32) (r r' : Reader) : Prop :=
  ∃ chunks : List Bytes, r.unread = chunks.flatten ++ r'.unread ∧
    ∀ s : Session, s.StandsAt r → (s.run crc32 (feed chunks)).StandsAt r'

theorem leads_of_path (hsane : r.Sane) (hpath : Reader.Path crc32 (fun _ => True) r r') :
    Leads crc32 r r' ∧ r'.Sane := by
  induction hpath with
  | refl => exact ⟨⟨[], rfl, fun _ hs => hs⟩, hsane⟩
  | tail _ hstep ih =>
    obtain ⟨⟨chunks, hunr, hrun⟩, hsane'⟩ := ih
    obtain ⟨chunk, hchunk, hlands⟩ := hstep.exists_chunk hsane'
    refine ⟨⟨chunks ++ [chunk], by simp [hunr, hchunk], fun s hs => ?_⟩, hsane'.step hstep⟩
    have hcall := (hrun s hs).call hlands
    rwa [feed, List.map_append, Session.run, List.foldl_append]

/-- Some chunks make every decoder read all bytes and deliver nothing. -/
def Quiet (crc32 : Bytes → Bytes → UInt32) (r : Reader) : Prop :=
  ∃ chunks : List Bytes, chunks.flatten = r.unread ∧
    ∀ s : Session, s.StandsAt r →
      (s.run crc32 (feed chunks)).delivered crc32 = r.delivered

theorem quiet_of_leads (h : Leads crc32 r r')
    (hdel : r'.delivered = r.delivered) (hquiet : Quiet crc32 r') : Quiet crc32 r := by
  obtain ⟨chunks, hunr, hrun⟩ := h
  obtain ⟨chunks', hflatten, hrun'⟩ := hquiet
  refine ⟨chunks ++ chunks', by rw [List.flatten_append, hflatten, hunr], fun s hs => ?_⟩
  rw [feed, List.map_append, Session.run, List.foldl_append, ← hdel]
  exact hrun' _ (hrun s hs)

theorem quiet_of_stops (h : (r.front crc32).Waits ∨ (r.front crc32).Fails) : Quiet crc32 r := by
  have hrounds : Rounds crc32
      (fun e b q => e = r.expected ∧ b = r.unread ∧ q = r.delivered)
      (fun _ _ _ q => q = r.delivered) :=
    { short := fun hP _ => hP.2.2
      refused := fun hP _ => hP.2.2
      incomplete := fun hP _ => hP.2.2
      accepted := by
        rintro e b q size f ⟨rfl, rfl, rfl⟩ ha
        rw [Reader.front, ha] at h
        simp [Attempt.Waits, Attempt.Fails] at h
      corrupted := by
        rintro e b q size err ⟨rfl, rfl, rfl⟩ ha he
        rw [Reader.front, ha] at h
        simp [Attempt.Waits, Attempt.Fails, he] at h
      failed := fun hP _ _ => hP.2.2 }
  refine ⟨[r.unread], by simp, fun s hs => ?_⟩
  obtain ⟨-, _, hdel, -⟩ := hrounds.call s r.unread hs.limit
    ⟨hs.expected, by rw [hs.buffer]; rfl, hs.delivered⟩
  rw [Session.delivered_eq]
  exact hdel

private theorem corrupted_of_magic_ne (hmagic : r.unread.take 4 ≠ protocolMagic)
    (hnone : r.expected = none) :
    (r.front crc32).Waits ∨ ∃ size e,
      r.front crc32 = .rejected size e ∧ e.isCorruption = true := by
  cases hfront : r.front crc32 with
  | short | refused | incomplete => exact Or.inl trivial
  | accepted =>
    obtain ⟨-, -, hle, hf⟩ := attempt_eq_iff.mp hfront
    have hsize := size_of_accepted hfront
    have hacc := (Frame.accepted_of_deserialize hf).magic
    unfold frameHeaderSize at hsize
    rw [List.take_take, Nat.min_eq_left (by omega)] at hacc
    exact absurd hacc hmagic
  | rejected size =>
    obtain ⟨-, -, hle, hf⟩ := attempt_eq_iff.mp hfront
    have hsize := (Reader.sane_of_none hnone).size_of_rejected hfront
    have hlen := List.length_take_of_le hle
    have hslice : (r.unread.take size).take 4 ≠ protocolMagic := by
      unfold frameHeaderSize at hsize
      rwa [List.take_take, Nat.min_eq_left (by omega)]
    rw [Frame.deserialize, if_neg (by omega)] at hf
    dsimp only at hf
    rw [if_pos hslice] at hf
    cases hf
    exact Or.inr ⟨size, _, rfl, rfl⟩

private theorem magic_not_overlapping {i : Nat} (h : (bytes.drop i).take 4 = protocolMagic) :
    (bytes.drop (i + 1)).take 4 ≠ protocolMagic := by
  intro hnext
  have hfirst := congrArg (fun l => l[1]?) h
  have hsec := congrArg (fun l => l[0]?) hnext
  simp only [List.getElem?_take, List.getElem?_drop, Nat.add_zero] at hfirst hsec
  rw [if_pos (by decide)] at hfirst hsec
  rw [hfirst] at hsec
  revert hsec
  decide

private theorem exists_quiet_skip (past : List Frame) (bytes : Bytes) :
    ∃ n, FrameDecoder.resync (bytes.take n) = [] ∧
      Quiet crc32 ⟨none, bytes.drop n, past⟩ := by
  induction hlen : bytes.length using Nat.strongRecOn generalizing bytes with
  | ind len ih =>
    rcases FrameDecoder.resync_cases bytes with hnil | ⟨i, hpos, hle, hmagic, -, hskip⟩
    · refine ⟨bytes.length, by rwa [List.take_length], quiet_of_stops (Or.inl ?_)⟩
      rw [List.drop_length]
      trivial
    -- the magic bytes are cut after their first byte
    refine ⟨i + 1, hskip (i + 1) (by omega), ?_⟩
    have hne := magic_not_overlapping hmagic
    have hfront : (Reader.front crc32 ⟨none, bytes.drop (i + 1), past⟩).Waits ∨
        ∃ size e, Reader.front crc32 ⟨none, bytes.drop (i + 1), past⟩ =
          .rejected size e ∧ e.isCorruption = true := corrupted_of_magic_ne hne rfl
    rcases hfront with hwaits | ⟨size, e, hrej, he⟩
    · exact quiet_of_stops (Or.inl hwaits)
    obtain ⟨n, hn, hquiet⟩ := ih _ (by simp only [List.length_drop]; omega)
      ((bytes.drop (i + 1)).drop size) rfl
    have hleads := (leads_of_path (Reader.sane_of_none rfl)
      (.single (.skip n hrej he hn fun _ => trivial))).1
    exact quiet_of_leads hleads rfl hquiet

private theorem quiet_of_rejected (hsane : r.Sane) (h : r.front crc32 = .rejected size e) :
    Quiet crc32 r := by
  cases he : e.isCorruption with
  | false => exact quiet_of_stops (Or.inr (by rw [h]; exact he))
  | true =>
    obtain ⟨n, hn, hquiet⟩ := exists_quiet_skip r.delivered (r.unread.drop size)
    have hleads := (leads_of_path hsane (.single (.skip n h he hn fun _ => trivial))).1
    exact quiet_of_leads hleads rfl hquiet

theorem Session.delivered_grows (s : Session)
    (hlim : s.decoder.maxFrameSize = maxFrameSize) (data : Bytes) :
    s.delivered crc32 <+:
      (s.call crc32 (.decodeStream data)).delivered crc32 := by
  have hrounds : Rounds crc32
      (fun _ _ q => s.delivered crc32 <+: q)
      (fun _ _ _ q => s.delivered crc32 <+: q) :=
    { short := fun hP _ => hP
      refused := fun hP _ => hP
      incomplete := fun hP _ => hP
      accepted := fun hP _ => hP.trans (List.prefix_append _ _)
      corrupted := fun hP _ _ => hP
      failed := fun hP _ _ => hP }
  obtain ⟨-, _, hgrows, -⟩ := hrounds.call s data hlim
    (Session.delivered_eq s ▸ List.prefix_rfl)
  rwa [Session.delivered_eq (call _ _ _)]

theorem Session.standsAt_new (bytes : Bytes) : new.StandsAt ⟨none, bytes, []⟩ :=
  ⟨rfl, rfl, rfl, rfl⟩

private theorem exists_delivering {f : Frame}
    (hpath : Reader.Path crc32 (fun _ => True) ⟨none, bytes, []⟩ r)
    (hacc : r.front crc32 = .accepted size f) :
    ∃ calls, DecoderCall.received calls = bytes ∧
      r.delivered ++ [f] <+:
        (Session.new.run crc32 calls).delivered crc32 := by
  obtain ⟨⟨chunks, hunr, hrun⟩, -⟩ :=
    leads_of_path (Reader.sane_of_none rfl) (hpath.tail (.accept hacc))
  have hstd := hrun _ (Session.standsAt_new bytes)
  refine ⟨feed chunks ++ [.decodeStream (r.unread.drop size)], ?_, ?_⟩
  · rw [DecoderCall.received_append, received_feed]
    exact (congrArg (chunks.flatten ++ ·) (List.append_nil _)).trans hunr.symm
  · have hdel : (Session.new.run crc32 (feed chunks)).delivered
        crc32 = r.delivered ++ [f] := by
      rw [Session.delivered_eq, hstd.delivered]
    rw [Session.run, List.foldl_append, ← hdel]
    exact Session.delivered_grows _ hstd.limit _

private theorem exists_quiet (hpath : Reader.Path crc32 (fun _ => True) ⟨none, bytes, []⟩ r)
    (hrej : r.front crc32 = .rejected size e) :
    ∃ calls, DecoderCall.received calls = bytes ∧
      (Session.new.run crc32 calls).delivered crc32 = r.delivered := by
  obtain ⟨⟨chunks, hunr, hrun⟩, hsane⟩ := leads_of_path (Reader.sane_of_none rfl) hpath
  obtain ⟨chunks', hflatten, hrun'⟩ := quiet_of_rejected hsane hrej
  refine ⟨feed chunks ++ feed chunks', ?_, ?_⟩
  · rw [DecoderCall.received_append, received_feed, received_feed, hflatten]
    exact hunr.symm
  · rw [Session.run, List.foldl_append]
    exact hrun' _ (hrun _ (Session.standsAt_new bytes))

/-- The frames delivered are the same for all ways of cutting a string into chunks exactly
when nothing resumes behind its first rejected frame. -/
theorem chunking_independent_iff (crc32 : Bytes → Bytes → UInt32) (bytes : Bytes) :
    (∀ calls₁ calls₂ : List DecoderCall, DecoderCall.received calls₁ = bytes →
      DecoderCall.received calls₂ = bytes →
      (Session.new.run crc32 calls₁).delivered crc32 =
        (Session.new.run crc32 calls₂).delivered crc32) ↔
      Reader.NothingResumes crc32 bytes := by
  constructor
  · intro h r₁ r hread hrejects size f hacc
    have hpath : Reader.Path crc32 (fun _ => True) ⟨none, bytes, []⟩ r₁ :=
      Relation.ReflTransGen.mono (fun _ _ ⟨_, _, hf, hr⟩ => hr ▸ .accept hf) _ _ hread
    obtain ⟨r₂, ⟨⟨n, e, hrej⟩, -⟩, -⟩ := Relation.TransGen.head'_iff.mp hrejects
    have hfurther : Reader.Path crc32 (fun _ => True) r₁ r :=
      Relation.ReflTransGen.mono (fun _ _ hr => hr.2) _ _ hrejects.to_reflTransGen
    obtain ⟨calls₁, hcalls₁, hmore⟩ := exists_delivering (hpath.trans hfurther) hacc
    obtain ⟨calls₂, hcalls₂, hquiet⟩ := exists_quiet hpath hrej
    rw [h calls₁ calls₂ hcalls₁ hcalls₂, hquiet,
      Reader.delivered_of_rejects hrejects.to_reflTransGen] at hmore
    have := hmore.length_le
    simp at this
  · rintro h calls₁ calls₂ rfl hcalls₂
    have h₂ := Session.reads_of_nothingResumes calls₂ (hcalls₂ ▸ h)
    rw [hcalls₂] at h₂
    exact (Session.reads_of_nothingResumes calls₁ h).unique h₂

/-- For no checksum are the frames delivered independent of the chunks. -/
theorem chunking_not_independent :
    ¬ ∃ crc32 : Bytes → Bytes → UInt32,
      ∀ (bytes : Bytes) (calls₁ calls₂ : List DecoderCall),
        DecoderCall.received calls₁ = bytes → DecoderCall.received calls₂ = bytes →
        (Session.new.run crc32 calls₁).delivered crc32 =
          (Session.new.run crc32 calls₂).delivered crc32 := by
  rintro ⟨crc32, h⟩
  obtain ⟨checksum, hne⟩ := sampleFrame.exists_wrong_checksum crc32
  -- a corrupted and a good frame, in two chunks and in one
  have htwo : (Session.new.run crc32
      ([.decodeStream (sampleFrame.bytesWith checksum)] ++
        [.decodeStream (sampleFrame.serialize crc32)])).delivered
      crc32 = [] ++ [sampleFrame] :=
    Session.delivered_of_cut (by simp) (by simp [sampleFrame_valid]) sampleFrame_valid hne
      (by simp [DecoderCall.received, DecoderCall.data])
      (by simp [DecoderCall.received, DecoderCall.data])
  have hsame := h (sampleFrame.bytesWith checksum ++ sampleFrame.serialize crc32)
    [.decodeStream (sampleFrame.bytesWith checksum ++ sampleFrame.serialize crc32)] _
    (by simp [DecoderCall.received, DecoderCall.data])
    (show DecoderCall.received ([.decodeStream (sampleFrame.bytesWith checksum)] ++
        [.decodeStream (sampleFrame.serialize crc32)]) = _ by
      simp [DecoderCall.received, DecoderCall.data])
  refine not_delivered_behind_corrupted crc32 hne ?_
  rw [hsame, htwo]
  exact List.Sublist.refl _

end Kaelix.Core.Protocol
