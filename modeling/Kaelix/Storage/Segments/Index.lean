import Kaelix.Lib.OrderedMap
import Kaelix.Lib.Tiling
import Kaelix.Storage.Segments.Appends

/-!
# The indexes of a segment

What the two indexes of a segment, by sequence and sorted, hold after any appends, and
`StorageSegment::read_range`, which goes over the sorted one.
-/

namespace Kaelix.Storage.Segments

open Lib Lib.Tiling Lib.BigEndian

/-! ### What the indexes hold -/

/-- The index entries of entries that are written one after the other from an offset on. -/
def indexEntries (lz4 : Lz4) (c : Bool) : Nat → List StorageEntry → List IndexEntry
  | _, [] => []
  | offset, e :: es =>
    StorageSegment.indexEntry e offset ::
      indexEntries lz4 c (offset + (diskBytes lz4 c e).length) es

section

variable {lz4 : Lz4} {c : Bool}

theorem indexEntries_append (offset : Nat) (es es' : List StorageEntry) :
    indexEntries lz4 c offset (es ++ es') = indexEntries lz4 c offset es ++
      indexEntries lz4 c (offset + (diskImage lz4 c es).length) es' := by
  induction es generalizing offset with
  | nil => rfl
  | cons e es ih =>
    rw [List.cons_append, indexEntries, ih, indexEntries, diskImage_cons,
      List.length_append, Nat.add_assoc, List.cons_append]

theorem map_sequence_indexEntries (offset : Nat) (es : List StorageEntry) :
    (indexEntries lz4 c offset es).map IndexEntry.sequence = es.map StorageEntry.sequence := by
  induction es generalizing offset with
  | nil => rfl
  | cons e es ih =>
    rw [indexEntries, List.map_cons, ih, List.map_cons]
    rfl

theorem mem_indexEntries {offset : Nat} {es : List StorageEntry} {x : IndexEntry} :
    x ∈ indexEntries lz4 c offset es ↔
      ∃ before e after, es = before ++ e :: after ∧
        x = StorageSegment.indexEntry e (offset + (diskImage lz4 c before).length) := by
  constructor
  · intro hx
    induction es generalizing offset with
    | nil => cases hx
    | cons e es ih =>
      rcases List.mem_cons.mp hx with rfl | hx
      · exact ⟨[], e, es, rfl, rfl⟩
      · obtain ⟨before, e', after, rfl, rfl⟩ := ih hx
        refine ⟨e :: before, e', after, rfl, ?_⟩
        rw [diskImage_cons, List.length_append, Nat.add_assoc]
  · rintro ⟨before, e, after, rfl, rfl⟩
    rw [indexEntries_append]
    exact List.mem_append_right _ List.mem_cons_self

end

/-- Both indexes hold these entries, written in this order. -/
structure Indexed (s : StorageSegment) (xs : List IndexEntry) : Prop where
  bySequence : s.sequenceIndex = HashMap.writeAll IndexEntry.sequence xs ∅
  sorted : s.sortedIndex = orderedWrites IndexEntry.sequence xs ∅

variable {s : StorageSegment} {xs : List IndexEntry}

theorem Indexed.record (h : Indexed s xs) (x : IndexEntry) :
    Indexed (s.record x) (xs ++ [x]) where
  bySequence := by
    rw [HashMap.writeAll, List.foldl_concat]
    exact congrArg (AList.insert x.sequence x) h.bySequence
  sorted := by
    rw [orderedWrites, List.foldl_concat]
    exact congrArg (·.insert x.sequence x) h.sorted

theorem Indexed.records (lz4 : Lz4) {c : Bool} (h : Indexed s xs) (offset : Nat)
    (es : List StorageEntry) :
    Indexed
      ((es.zip ((placements lz4 c offset es).map Prod.snd)).foldl
        (fun s p => s.record (StorageSegment.indexEntry p.1 p.2)) s)
      (xs ++ indexEntries lz4 c offset es) := by
  induction es generalizing s xs offset with
  | nil => simpa [indexEntries] using h
  | cons e es ih =>
    have hstep := ih (h.record (StorageSegment.indexEntry e offset))
      (offset + (diskBytes lz4 c e).length)
    rw [List.append_assoc] at hstep
    exact hstep

/-- The segment after the entries were appended to a file that held `base`, with its
indexes.  On a file that was empty the size is exact from the start. -/
structure Laid (lz4 : Lz4) (c : Bool) (base : Bytes) (entries : List StorageEntry)
    (s : StorageSegment) : Prop extends Written lz4 c base entries s where
  index : Indexed s (indexEntries lz4 c base.length entries)
  fileSize : base = [] → s.fileSize = s.file.length

namespace Laid

variable {lz4 : Lz4} {c : Bool} {base : Bytes} {entries : List StorageEntry} {s : StorageSegment}

private theorem createNew (lz4 : Lz4) (id : Nat) (base : Bytes) (c : Bool) :
    Laid lz4 c base [] (.createNew id base c) where
  toWritten := .createNew lz4 id base c
  index := ⟨rfl, rfl⟩
  fileSize h := by rw [h]; rfl

private theorem append (h : Laid lz4 c base entries s) (call : AppendCall) :
    ∃ s', s.append lz4 call = .ok s' ∧ Laid lz4 c base (entries ++ call.entries) s' := by
  obtain ⟨s', hs', hwr⟩ := h.toWritten.append call
  obtain ⟨w, hw, hpos, hopen, rfl⟩ := h.writer
  have hes : indexEntries lz4 w.enableCompression base.length
      (entries ++ call.entries) =
        indexEntries lz4 w.enableCompression base.length entries ++
          indexEntries lz4 w.enableCompression w.writePosition call.entries := by
    rw [indexEntries_append, hpos, h.length_file]
  cases call with
  | entry e =>
    obtain rfl := Except.ok.inj ((append_entry_eq h.unsealed hw hopen e).symm.trans hs')
    have hindex := h.index.record (StorageSegment.indexEntry e w.writePosition)
    refine ⟨_, hs', hwr, ?_, fun _ => ?_⟩
    · rw [hes]
      exact ⟨hindex.bySequence, hindex.sorted⟩
    · simp [hpos]
  | batch es =>
    have hbatch := append_batch_eq h.unsealed hw (writeBatch_eq lz4 w s.file es hopen)
      (map_offset_writeResults lz4 w.segmentId w.enableCompression w.writePosition es)
    obtain rfl := Except.ok.inj (hbatch.symm.trans hs')
    have hindex := h.index.records lz4 (c := w.enableCompression) w.writePosition es
    refine ⟨_, hs', hwr, ?_, fun _ => ?_⟩
    · rw [hes]
      exact ⟨hindex.bySequence, hindex.sorted⟩
    · simp [SegmentWriter.size, hpos]

theorem appendAll (lz4 : Lz4) (id : Nat) (base : Bytes) (c : Bool) (calls : List AppendCall) :
    ∃ s, (StorageSegment.createNew id base c).appendAll lz4 calls = .ok s ∧
      Laid lz4 c base (appended calls) s := by
  obtain ⟨s, hs, hlaid⟩ := appendAll_induction (P := Laid lz4 c base)
    (fun h call => h.append call) (createNew lz4 id base c) calls
  rw [List.nil_append] at hlaid
  exact ⟨s, hs, hlaid⟩

end Laid

/-! ### Extents -/

/-- The part of the file that an index entry describes. -/
def IndexEntry.extent (x : IndexEntry) : Stretch := ⟨x.offset, x.size.toNat⟩

/-- The extents in each index are disjoint and cover exactly the file. -/
def ExtentsTile (s : StorageSegment) : Prop :=
  Tiles (s.sequenceIndex.values.map IndexEntry.extent) 0 s.fileSize ∧
    Tiles ((s.sortedIndex.toList.map Prod.snd).map IndexEntry.extent) 0 s.fileSize

/-- An entry with the length of its bytes in the file, and its size in the index, the
estimate of `size` as a `u32`. -/
def extentPiece (lz4 : Lz4) (c : Bool) (e : StorageEntry) : Piece :=
  { room := (diskBytes lz4 c e).length, length := (UInt32.ofNat e.size).toNat }

section

variable {lz4 : Lz4} {c : Bool} {entries : List StorageEntry} {s : StorageSegment}

private theorem map_extent_indexEntries (offset : Nat) (es : List StorageEntry) :
    (indexEntries lz4 c offset es).map IndexEntry.extent =
      layout offset (es.map (extentPiece lz4 c)) := by
  induction es generalizing offset with
  | nil => rfl
  | cons e es ih =>
    rw [indexEntries, List.map_cons, ih, List.map_cons, layout]
    rfl

private theorem room_map_extentPiece (es : List StorageEntry) :
    room (es.map (extentPiece lz4 c)) = (diskImage lz4 c es).length := by
  induction es with
  | nil => rfl
  | cons e es ih =>
    rw [List.map_cons, room_cons, ih, diskImage_cons, List.length_append]
    rfl

theorem Laid.extentsTile_iff (h : Laid lz4 c [] entries s)
    (hdist : (entries.map StorageEntry.sequence).Nodup) :
    ExtentsTile s ↔ Agrees 0 0 (entries.map (extentPiece lz4 c)) := by
  have hkeys : ((indexEntries lz4 c 0 entries).map IndexEntry.sequence).Nodup := by
    rwa [map_sequence_indexEntries]
  have hvals : s.sequenceIndex.values.Perm (indexEntries lz4 c 0 entries) := by
    rw [h.index.bySequence]
    exact HashMap.values_writeAll IndexEntry.sequence hkeys ▸ List.reverse_perm _
  have hsort : (s.sortedIndex.toList.map Prod.snd).Perm (indexEntries lz4 c 0 entries) := by
    rw [h.index.sorted]
    exact perm_orderedWrites IndexEntry.sequence hkeys
  have hsize : s.fileSize = 0 + room (entries.map (extentPiece lz4 c)) := by
    rw [h.fileSize rfl, h.file, room_map_extentPiece, List.nil_append, Nat.zero_add]
  rw [ExtentsTile, tiles_perm_iff (hvals.map _), tiles_perm_iff (hsort.map _),
    and_self, map_extent_indexEntries, hsize, ← tiles_layout_iff]
  exact (and_iff_right (Nat.zero_le _)).symm

private theorem agrees_extentPiece_iff (hpos : ∀ e ∈ entries, UInt32.ofNat e.size ≠ 0) :
    Agrees 0 0 (entries.map (extentPiece lz4 c)) ↔
      ∀ e ∈ entries, (UInt32.ofNat e.size).toNat = (diskBytes lz4 c e).length := by
  rw [agrees_iff_of_ne_zero, List.forall_mem_map]
  · rfl
  · rw [List.forall_mem_map]
    intro e he hzero
    exact hpos e he (UInt32.toNat_inj.mp hzero)

theorem Laid.extentsTile_uncompressed_iff (h : Laid lz4 false [] entries s)
    (hdist : (entries.map StorageEntry.sequence).Nodup)
    (hsize : ∀ e ∈ entries, e.size < 2 ^ 32) : ExtentsTile s ↔ entries = [] := by
  have htoNat : ∀ e ∈ entries, (UInt32.ofNat e.size).toNat = e.size := fun e he =>
    UInt32.toNat_ofNat_of_lt (hsize e he)
  have hestimate : ∀ e : StorageEntry, (diskBytes lz4 false e).length + 20 ≤ e.size := by
    intro e
    simp only [diskBytes, Bool.false_eq_true, if_false, List.length_append,
      Word.length_putLe, StorageEntry.length_serialize, StorageEntry.size]
    have hfour : u32.bytes = 4 := rfl
    omega
  rw [h.extentsTile_iff hdist, agrees_extentPiece_iff]
  · rw [List.eq_nil_iff_forall_not_mem]
    refine forall₂_congr fun e he => iff_of_false ?_ id
    have hlonger := hestimate e
    rw [htoNat e he]
    omega
  · intro e he hzero
    have hlonger := hestimate e
    have hsize := htoNat e he
    rw [hzero] at hsize
    simp only [UInt32.toNat_zero] at hsize
    omega

end

/-- After any appends to a new segment, compressed or not, the extents in the indexes are
disjoint and cover exactly the file iff the sizes in the index, added up, agree with the
lengths in the file, added up, wherever an extent that is not empty begins and at the
end. -/
theorem extents_tile_iff (lz4 : Lz4) (id : Nat) (c : Bool) (calls : List AppendCall)
    (hdist : ((appended calls).map StorageEntry.sequence).Nodup) :
    ∃ s, (StorageSegment.createNew id [] c).appendAll lz4 calls = .ok s ∧
      (ExtentsTile s ↔ Agrees 0 0 ((appended calls).map (extentPiece lz4 c))) := by
  obtain ⟨s, hs, hlaid⟩ := Laid.appendAll lz4 id [] c calls
  exact ⟨s, hs, hlaid.extentsTile_iff hdist⟩

theorem extents_tile_sample :
    ∃ s, (StorageSegment.createNew 1 [] true).appendAll storing
        [.entry (.new 42 7 [1]), .batch [.new 43 8 []]] = .ok s ∧
      (ExtentsTile s ↔
        Agrees 0 0 ([StorageEntry.new 42 7 [1], .new 43 8 []].map (extentPiece storing true))) :=
  extents_tile_iff storing 1 true [.entry (.new 42 7 [1]), .batch [.new 43 8 []]] (by decide)

/-- One entry without a payload takes 28 bytes, and the index has 48 for it. -/
theorem not_extents_tile :
    ¬ ∀ (lz4 : Lz4) (id : Nat) (c : Bool) (calls : List AppendCall),
      ((appended calls).map StorageEntry.sequence).Nodup →
      ∃ s, (StorageSegment.createNew id [] c).appendAll lz4 calls = .ok s ∧
        ExtentsTile s := by
  intro htiles
  obtain ⟨s, hs, htile⟩ := htiles storing 1 false [.entry (.new 42 7 [])] (by decide)
  obtain ⟨s', hs', hlaid⟩ := Laid.appendAll storing 1 [] false [.entry (.new 42 7 [])]
  obtain rfl : s = s' := Except.ok.inj (hs.symm.trans hs')
  have hnil := (hlaid.extentsTile_uncompressed_iff (by decide) (by decide)).mp htile
  cases hnil

/-! ### Range reads -/

/-- `BTreeMap::range` on the sorted index.  It panics on bounds in the wrong order, except
on a map into which nothing was inserted. -/
def indexRange (index : Std.TreeMap UInt64 IndexEntry) (start stop : UInt64) :
    Outcome (List IndexEntry) :=
  if index.isEmpty then .ok []
  else if stop < start then
    .error (.panic "range start is greater than range end in BTreeMap")
  else
    .ok ((index.toList.filter fun e => decide (start ≤ e.1) && decide (e.1 < stop)).map Prod.snd)

def StorageSegment.readRange (lz4 : Lz4) (s : StorageSegment) (start stop : UInt64) :
    Outcome (List StorageEntry) := do
  let range ← indexRange s.sortedIndex start stop
  range.mapM fun e => s.readEntryAtOffset lz4 e.offset

/-- Laws of LZ4: decompression inverts compression, the compressed data starts with the
length of the data, and it is not much longer than the data. -/
structure Lz4.Sound (lz4 : Lz4) : Prop where
  inverse : ∀ data, lz4.decompress (lz4.compress data) = .ok data
  pos : ∀ data, 0 < (lz4.compress data).length
  bounded : ∀ data, data.length ≤ 24 + 100 * 1024 * 1024 →
    (lz4.compress data).length < 2 ^ 32

theorem storing_sound : storing.Sound where
  inverse data := by
    refine congrArg Except.ok (List.drop_left' ?_)
    rw [Word.length_putLe]
    rfl
  pos data := by
    simp only [storing, List.length_append, Word.length_putLe]
    exact Nat.add_pos_left (by decide) _
  bounded data h := by
    have hfour : u32.bytes = 4 := rfl
    simp only [storing, List.length_append, Word.length_putLe]
    omega

/-- A range read returns exactly the entries of the range, in the order of their
sequences. -/
def ReadsRange (outcome : Outcome (List StorageEntry)) (entries : List StorageEntry)
    (start stop : UInt64) : Prop :=
  ∃ l, outcome = .ok l ∧ l.Pairwise (fun a b => a.sequence < b.sequence) ∧
    ∀ e, e ∈ l ↔ e ∈ entries ∧ start ≤ e.sequence ∧ e.sequence < stop

theorem exists_mapM_eq_ok {α β ε : Type} {f : α → Except ε β} {R : α → β → Prop}
    {l : List α} (h : ∀ a ∈ l, ∃ b, f a = .ok b ∧ R a b) :
    ∃ bs, l.mapM f = .ok bs ∧ List.Forall₂ R l bs := by
  induction l with
  | nil => exact ⟨[], rfl, .nil⟩
  | cons a l ih =>
    obtain ⟨b, hb, hR⟩ := h a List.mem_cons_self
    obtain ⟨bs, hbs, hall⟩ := ih fun a' ha' => h a' (List.mem_cons_of_mem a ha')
    refine ⟨b :: bs, ?_, .cons hR hall⟩
    rw [List.mapM_cons, hb, hbs]
    rfl

section

variable {α β : Type} {R : α → β → Prop} {l : List α} {bs : List β}

theorem exists_of_mem_left (h : List.Forall₂ R l bs) {a : α} (ha : a ∈ l) : ∃ b ∈ bs, R a b := by
  induction h with
  | nil => cases ha
  | cons hR _ ih =>
    rcases List.mem_cons.mp ha with rfl | ha
    · exact ⟨_, List.mem_cons_self, hR⟩
    · obtain ⟨b, hb, hR⟩ := ih ha
      exact ⟨b, List.mem_cons_of_mem _ hb, hR⟩

theorem exists_of_mem_right (h : List.Forall₂ R l bs) {b : β} (hb : b ∈ bs) : ∃ a ∈ l, R a b :=
  exists_of_mem_left h.flip hb

end

section

variable {xs : List IndexEntry} (hdist : (xs.map IndexEntry.sequence).Nodup)
  {start stop : UInt64}

include hdist

private theorem isEmpty_orderedWrites_iff :
    (orderedWrites IndexEntry.sequence xs ∅).isEmpty = true ↔ xs = [] := by
  have hperm := perm_orderedWrites IndexEntry.sequence hdist
  rw [← Std.TreeMap.isEmpty_toList, List.isEmpty_iff]
  constructor
  · intro hnil
    rw [hnil] at hperm
    exact hperm.nil_eq.symm
  · rintro rfl
    exact List.map_eq_nil_iff.mp hperm.eq_nil

theorem indexRange_panics (hne : xs ≠ []) (hlt : stop < start) :
    indexRange (orderedWrites IndexEntry.sequence xs ∅) start stop =
      .error (.panic "range start is greater than range end in BTreeMap") := by
  rw [indexRange, if_neg (mt (isEmpty_orderedWrites_iff hdist).mp hne), if_pos hlt]

private theorem indexRange_eq (horder : start ≤ stop ∨ xs = []) :
    ∃ l, indexRange (orderedWrites IndexEntry.sequence xs ∅) start stop = .ok l ∧
      l.Pairwise (fun a b => a.sequence < b.sequence) ∧
      ∀ x, x ∈ l ↔ x ∈ xs ∧ start ≤ x.sequence ∧ x.sequence < stop := by
  by_cases hnil : xs = []
  · refine ⟨[], ?_, .nil, ?_⟩
    · rw [indexRange, if_pos ((isEmpty_orderedWrites_iff hdist).mpr hnil)]
    · simp [hnil]
  · have hle : ¬ stop < start := UInt64.not_lt.mpr (horder.resolve_right hnil)
    refine ⟨_, (if_neg (mt (isEmpty_orderedWrites_iff hdist).mp hnil)).trans
      (if_neg hle), ?_, fun x => ?_⟩
    · rw [List.pairwise_map]
      refine (Std.TreeMap.ordered_keys_toList.filter _).imp_of_mem ?_
      intro a b ha hb hlt
      rw [((mem_toList_orderedWrites _ hdist).mp (List.mem_of_mem_filter ha)).2,
        ((mem_toList_orderedWrites _ hdist).mp (List.mem_of_mem_filter hb)).2]
      exact Std.compare_eq_lt.mp hlt
    · simp only [List.mem_map, List.mem_filter, Prod.exists, exists_eq_right,
        mem_toList_orderedWrites _ hdist, Bool.and_eq_true, decide_eq_true_eq]
      constructor
      · rintro ⟨k, ⟨hx, rfl⟩, hrange⟩
        exact ⟨hx, hrange⟩
      · rintro ⟨hx, hrange⟩
        exact ⟨x.sequence, ⟨hx, rfl⟩, hrange⟩

end

/-- A compressed segment, sealed or not, that holds the entries and reads its file. -/
structure Readable (lz4 : Lz4) (base : Bytes) (entries : List StorageEntry)
    (s : StorageSegment) : Prop where
  file : s.file = base ++ diskImage lz4 true entries
  sorted : s.sortedIndex =
    orderedWrites IndexEntry.sequence (indexEntries lz4 true base.length entries) ∅
  reads : s.ReadsFile

variable {lz4 : Lz4} {base : Bytes} {entries : List StorageEntry}

theorem Laid.readable (h : Laid lz4 true base entries s) : Readable lz4 base entries s :=
  ⟨h.file, h.index.sorted, h.readsFile⟩

theorem Laid.readable_seal (h : Laid lz4 true base entries s) (mapped : Bool) :
    Readable lz4 base entries (s.sealSegment mapped) :=
  ⟨h.file, h.index.sorted, h.readsFile_seal mapped⟩

namespace Readable

variable {lz4 : Lz4} {base : Bytes} {entries : List StorageEntry} {s : StorageSegment}
  {start stop : UInt64}

variable (h : Readable lz4 base entries s)
include h

variable (hlz4 : lz4.Sound)
include hlz4

private theorem read_at (hvalid : ∀ e ∈ entries, e.validate = .ok ()) {x : IndexEntry}
    (hx : x ∈ indexEntries lz4 true base.length entries) :
    ∃ r, s.readEntryAtOffset lz4 x.offset = .ok r ∧
      ∃ e ∈ entries, r = e.stored ∧ e.sequence = x.sequence := by
  obtain ⟨before, e, after, rfl, rfl⟩ := mem_indexEntries.mp hx
  have he : e ∈ before ++ e :: after := by simp
  have hpay := StorageEntry.payload_le_of_validate (hvalid e he)
  have hst : ∀ read, Serves read s.file →
      readStored lz4 read (base ++ diskImage lz4 true before).length =
        .ok (e.serialize, (diskBytes lz4 true e).length) := by
    intro read hread
    rw [h.file, diskImage_append, diskImage_cons, ← List.append_assoc] at hread
    refine readStored_compressed hread (hlz4.inverse _) (hlz4.pos _) (hlz4.bounded _ ?_)
    rw [StorageEntry.length_serialize]
    omega
  rw [List.length_append] at hst
  refine ⟨e.stored, ?_, e, he, rfl, rfl⟩
  rw [← StorageEntry.deserialize_serialize e (by omega)]
  exact readEntryAtOffset_eq h.reads hst

section

variable (hdist : (entries.map StorageEntry.sequence).Nodup)
  (hvalid : ∀ e ∈ entries, e.validate = .ok ())
include hdist hvalid

private theorem readRange_eq (horder : start ≤ stop ∨ entries = []) :
    ∃ l, s.readRange lz4 start stop = .ok l ∧
      l.Pairwise (fun a b => a.sequence < b.sequence) ∧
      ∀ r, r ∈ l ↔ ∃ e ∈ entries, r = e.stored ∧ start ≤ e.sequence ∧ e.sequence < stop := by
  have hkeys : ((indexEntries lz4 true base.length entries).map IndexEntry.sequence).Nodup := by
    rwa [map_sequence_indexEntries]
  obtain ⟨xs, hxs, hsort, hmem⟩ := indexRange_eq hkeys
    (horder.imp_right fun hnil => by rw [hnil]; rfl)
  obtain ⟨l, hl, hall⟩ := exists_mapM_eq_ok (l := xs) fun x hx =>
    h.read_at hlz4 hvalid ((hmem x).mp hx).1
  have hsequences : l.map StorageEntry.sequence = xs.map IndexEntry.sequence := by
    symm
    rw [← List.forall₂_eq_eq_eq, List.forall₂_map_left_iff, List.forall₂_map_right_iff]
    refine hall.imp fun x r hr => ?_
    obtain ⟨e, -, rfl, hseq⟩ := hr
    exact hseq.symm
  refine ⟨l, ?_, ?_, fun r => ⟨fun hr => ?_, ?_⟩⟩
  · rw [StorageSegment.readRange, h.sorted, hxs]
    exact hl
  · rw [← List.pairwise_map (R := (· < ·)), hsequences, List.pairwise_map]
    exact hsort
  · obtain ⟨x, hx, e, he, rfl, hseq⟩ := exists_of_mem_right hall hr
    refine ⟨e, he, rfl, ?_⟩
    rw [hseq]
    exact ((hmem x).mp hx).2
  · rintro ⟨e, he, rfl, hrange⟩
    obtain ⟨before, after, rfl⟩ := List.append_of_mem he
    have hx := (hmem _).mpr ⟨mem_indexEntries.mpr ⟨before, e, after, rfl, rfl⟩, hrange⟩
    obtain ⟨r, hr, e', he', rfl, hseq⟩ := exists_of_mem_left hall hx
    obtain rfl := List.inj_on_of_nodup_map hdist he' he hseq
    exact hr

theorem readsRange_iff :
    ReadsRange (s.readRange lz4 start stop) entries start stop ↔
      (start ≤ stop ∨ entries = []) ∧
        ∀ e ∈ entries, start ≤ e.sequence → e.sequence < stop → e.stored = e := by
  constructor
  · rintro ⟨l, hl, -, hmem⟩
    have horder : start ≤ stop ∨ entries = [] := by
      by_contra hnot
      obtain ⟨hlt, hne⟩ := not_or.mp hnot
      have hkeys : ((indexEntries lz4 true base.length entries).map
          IndexEntry.sequence).Nodup := by
        rwa [map_sequence_indexEntries]
      have hes : indexEntries lz4 true base.length entries ≠ [] := by
        cases entries with
        | nil => exact absurd rfl hne
        | cons => exact List.cons_ne_nil _ _
      rw [StorageSegment.readRange, h.sorted,
        indexRange_panics hkeys hes (UInt64.not_le.mp hlt)] at hl
      cases hl
    refine ⟨horder, fun e he hstart hstop => ?_⟩
    obtain ⟨l', hl', -, hmem'⟩ := h.readRange_eq hlz4 hdist hvalid horder
    obtain rfl := Except.ok.inj (hl.symm.trans hl')
    have hread : e.stored ∈ l := (hmem' _).mpr ⟨e, he, rfl, hstart, hstop⟩
    exact List.inj_on_of_nodup_map hdist ((hmem _).mp hread).1 he rfl
  · rintro ⟨horder, hst⟩
    obtain ⟨l, hl, hsort, hmem⟩ := h.readRange_eq hlz4 hdist hvalid horder
    refine ⟨l, hl, hsort, fun r => ?_⟩
    rw [hmem r]
    constructor
    · rintro ⟨e, he, rfl, hstart, hstop⟩
      exact ⟨(hst e he hstart hstop).symm ▸ he, hstart, hstop⟩
    · rintro ⟨hr, hstart, hstop⟩
      exact ⟨r, hr, (hst r hr hstart hstop).symm, hstart, hstop⟩

end

end Readable

/-- After any appends of valid entries to a compressed segment, a range read, before and
after sealing, returns exactly the entries of the range in order iff the bounds are in
order or the segment is empty, and no entry of the range has metadata that the byte layout
leaves out.  With bounds in the wrong order it panics. -/
theorem read_range_iff (lz4 : Lz4) (hlz4 : lz4.Sound) (id : Nat) (base : Bytes) (mapped : Bool)
    (calls : List AppendCall) (hdist : ((appended calls).map StorageEntry.sequence).Nodup)
    (hvalid : ∀ e ∈ appended calls, e.validate = .ok ()) (start stop : UInt64) :
    ∃ s, (StorageSegment.createNew id base true).appendAll lz4 calls = .ok s ∧
      ((ReadsRange (s.readRange lz4 start stop) (appended calls) start stop ∧
          ReadsRange ((s.sealSegment mapped).readRange lz4 start stop)
            (appended calls) start stop) ↔
        (start ≤ stop ∨ appended calls = []) ∧
          ∀ e ∈ appended calls, start ≤ e.sequence → e.sequence < stop → e.stored = e) := by
  obtain ⟨s, hs, hlaid⟩ := Laid.appendAll lz4 id base true calls
  refine ⟨s, hs, ?_⟩
  rw [hlaid.readable.readsRange_iff hlz4 hdist hvalid,
    (hlaid.readable_seal mapped).readsRange_iff hlz4 hdist hvalid, and_self]

theorem read_range_sample :
    ∃ s, (StorageSegment.createNew 1 [] true).appendAll storing
        [.entry (.new 43 8 []), .batch [.new 42 7 [1]]] = .ok s ∧
      ((ReadsRange (s.readRange storing 42 44) [.new 43 8 [], .new 42 7 [1]] 42 44 ∧
          ReadsRange ((s.sealSegment true).readRange storing 42 44)
            [.new 43 8 [], .new 42 7 [1]] 42 44) ↔
        ((42 : UInt64) ≤ 44 ∨ [StorageEntry.new 43 8 [], .new 42 7 [1]] = []) ∧
          ∀ e ∈ [StorageEntry.new 43 8 [], .new 42 7 [1]],
            42 ≤ e.sequence → e.sequence < 44 → e.stored = e) :=
  read_range_iff storing storing_sound 1 [] true
    [.entry (.new 43 8 []), .batch [.new 42 7 [1]]] (by decide) (by decide) 42 44

/-- On a segment with one entry the bounds 2 and 1 panic. -/
theorem not_read_range :
    ¬ ∀ (lz4 : Lz4), lz4.Sound → ∀ (id : Nat) (base : Bytes) (mapped : Bool)
        (calls : List AppendCall),
      ((appended calls).map StorageEntry.sequence).Nodup →
      (∀ e ∈ appended calls, e.validate = .ok ()) → ∀ start stop : UInt64,
      ∃ s, (StorageSegment.createNew id base true).appendAll lz4 calls = .ok s ∧
        ReadsRange (s.readRange lz4 start stop) (appended calls) start stop ∧
        ReadsRange ((s.sealSegment mapped).readRange lz4 start stop)
          (appended calls) start stop := by
  intro hranges
  obtain ⟨s, hs, hreads, -⟩ := hranges storing storing_sound 1 [] false
    [.entry (.new 1 7 [])] (by decide) (by decide) 2 1
  obtain ⟨s', hs', hlaid⟩ := Laid.appendAll storing 1 [] true [.entry (.new 1 7 [])]
  obtain rfl : s = s' := Except.ok.inj (hs.symm.trans hs')
  have horder := ((hlaid.readable.readsRange_iff storing_sound (by decide)
    (by decide)).mp hreads).1
  exact absurd horder (by decide)

end Kaelix.Storage.Segments
