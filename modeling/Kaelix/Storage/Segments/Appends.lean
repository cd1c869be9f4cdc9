import Kaelix.Storage.Segments.Segment

/-!
# Histories of appends

What a segment holds after any calls of `append_entry` and `append_batch`, and what its readers
make of it.
-/

namespace Kaelix.Storage.Segments

open Lib Lib.BigEndian

/-! ### Reading what is stored -/

/-- Reads return the bytes of the file. -/
def Serves (read : Nat → Nat → String → Outcome Bytes) (file : Bytes) : Prop :=
  ∀ before data after what, file = before ++ (data ++ after) →
    read before.length data.length what = .ok data

theorem Serves.read_eq {read : Nat → Nat → String → Outcome Bytes} {file : Bytes}
    (h : Serves read file) {offset len : Nat} {what : String} (before data after : Bytes)
    (hfile : file = before ++ (data ++ after)) (hoff : before.length = offset)
    (hlen : data.length = len) : read offset len what = .ok data := by
  rw [← hoff, ← hlen]
  exact h before data after what hfile

theorem serves_readExact (file : Bytes) : Serves (readExact file) file := by
  intro before data after what hfile
  rw [readExact, hfile, List.drop_left, List.take_left, if_pos]
  simp only [List.length_append]
  omega

theorem serves_readAt (mapped : Bool) (file : Bytes) :
    Serves (fun offset len _ => (SegmentReader.new mapped file).readAt offset len) file := by
  intro before data after what hfile
  have hlen : before.length + data.length ≤ file.length := by
    rw [hfile]
    simp only [List.length_append]
    omega
  have hslice : (file.drop before.length).take data.length = data := by
    rw [hfile, List.drop_left, List.take_left]
  have hfileAt : (SegmentReader.new mapped file).readFileAt before.length data.length
      = .ok data := by
    rw [SegmentReader.readFileAt]
    show (if data.length ≤ file.length - before.length then _ else _) = _
    rw [if_pos (by omega)]
    exact congrArg Except.ok hslice
  show SegmentReader.readAt _ _ _ = _
  rw [SegmentReader.readAt]
  show (if before.length + data.length > file.length then _ else _) = _
  rw [if_neg (by omega)]
  split
  · next mmap hmmap =>
      have hmap : mmap = file := by
        simp only [SegmentReader.new, Option.ite_none_right_eq_some, Option.some.injEq] at hmmap
        exact hmmap.2.2.symm
      rw [hmap, if_pos hlen, hslice]
  · exact hfileAt

section

variable {lz4 : Lz4} {read : Nat → Nat → String → Outcome Bytes} {before after : Bytes}
  {entry : StorageEntry}

theorem readStored_uncompressed
    (hread : Serves read (before ++ (diskBytes lz4 false entry ++ after)))
    (hlen : entry.payload.length < 2 ^ 32) :
    readStored lz4 read before.length = .ok (entry.header, 28) := by
  have hpre : (before ++ u32.putLe 0).length = before.length + 4 := by
    rw [List.length_append, Word.length_putLe]
    rfl
  have hcmpr : read before.length 4 "compression header" = .ok (u32.putLe 0) :=
    hread.read_eq before (u32.putLe 0) (entry.serialize ++ after)
      (by simp [diskBytes]) rfl (Word.length_putLe _ _)
  have hhdr : read (before.length + 4) 24 "entry header" = .ok entry.header :=
    hread.read_eq (before ++ u32.putLe 0) entry.header (entry.payload ++ after)
      (by simp [diskBytes, StorageEntry.serialize]) hpre entry.length_header
  have hpay : read (before.length + 4 + 24) 0 "payload" = .ok [] :=
    hread.read_eq (before ++ u32.putLe 0 ++ entry.header) [] (entry.payload ++ after)
      (by simp [diskBytes, StorageEntry.serialize])
      (by rw [List.length_append, hpre, entry.length_header]) rfl
  have hzero : (u32.getLe (u32.putLe 0)).toNat = 0 := by decide
  have hhigh : (u32.readLe 20 entry.header).toNat = 0 := by
    have hnat : (UInt64.ofNat entry.payload.length).toNat = entry.payload.length :=
      UInt64.toNat_ofNat_of_lt (show _ < 2 ^ 64 by omega)
    rw [StorageEntry.readLe_header_high, hnat, Nat.div_eq_of_lt hlen]
    rfl
  simp only [readStored, hcmpr, hhdr, hpay, hzero, hhigh, bind, Except.bind,
    gt_iff_lt, Nat.lt_irrefl, if_false, List.append_nil]

theorem readStored_compressed (hread : Serves read (before ++ (diskBytes lz4 true entry ++ after)))
    (hinv : lz4.decompress (lz4.compress entry.serialize) = .ok entry.serialize)
    (hpos : 0 < (lz4.compress entry.serialize).length)
    (hlt : (lz4.compress entry.serialize).length < 2 ^ 32) :
    readStored lz4 read before.length =
      .ok (entry.serialize, (diskBytes lz4 true entry).length) := by
  have hcmpr : read before.length 4 "compression header" =
      .ok (u32.putLe (.ofNat (lz4.compress entry.serialize).length)) :=
    hread.read_eq before (u32.putLe (.ofNat (lz4.compress entry.serialize).length))
      (lz4.compress entry.serialize ++ after) (by simp [diskBytes]) rfl
      (Word.length_putLe _ _)
  have hdata : read (before.length + 4) (lz4.compress entry.serialize).length
      "compressed data" = .ok (lz4.compress entry.serialize) := by
    refine hread.read_eq (before ++ u32.putLe (.ofNat (lz4.compress entry.serialize).length))
      (lz4.compress entry.serialize) after (by simp [diskBytes]) ?_ rfl
    rw [List.length_append, Word.length_putLe]
    rfl
  have hlen : (u32.getLe (u32.putLe (.ofNat (lz4.compress entry.serialize).length))).toNat
      = (lz4.compress entry.serialize).length := by
    have hget := u32.getLe_putLe_append (.ofNat (lz4.compress entry.serialize).length) []
    rw [List.append_nil] at hget
    rw [hget]
    exact UInt32.toNat_ofNat_of_lt hlt
  have hsize : (diskBytes lz4 true entry).length = 4 + (lz4.compress entry.serialize).length := by
    simp [diskBytes]
  simp only [readStored, hcmpr, hdata, hlen, hinv, hsize, hpos, bind, Except.bind, if_true]

end

/-! ### The index -/

/-- The index and the range of sequences stand for entries at these places, of which the
last one with a sequence counts. -/
structure Catalogs (s : StorageSegment) (places : List (UInt64 × Nat)) : Prop where
  lookup : ∀ k, (s.sequenceIndex.lookup k).map IndexEntry.offset = places.reverse.lookup k
  first : s.firstSequence = places.foldl (fun m p => min m p.1) (.ofNat (2 ^ 64 - 1))
  last : s.lastSequence = places.foldl (fun m p => max m p.1) 0

variable {s : StorageSegment} {places : List (UInt64 × Nat)}

theorem Catalogs.record (h : Catalogs s places) (e : IndexEntry) :
    Catalogs (s.record e) (places ++ [(e.sequence, e.offset)]) where
  lookup k := by
    show ((s.sequenceIndex.insert e.sequence e).lookup k).map _ = _
    rw [HashMap.lookup_insert_eq, List.reverse_append, List.reverse_singleton,
      List.singleton_append, List.lookup_cons]
    by_cases hk : k = e.sequence
    · rw [if_pos hk, hk, beq_self_eq_true]
      rfl
    · rw [if_neg hk, beq_false_of_ne hk]
      exact h.lookup k
  first := by
    show min s.firstSequence e.sequence = _
    rw [h.first, List.foldl_append]
    rfl
  last := by
    show max s.lastSequence e.sequence = _
    rw [h.last, List.foldl_append]
    rfl

/-- Where entries are placed that are written one after the other from an offset on. -/
def placements (lz4 : Lz4) (c : Bool) : Nat → List StorageEntry → List (UInt64 × Nat)
  | _, [] => []
  | offset, e :: es =>
    (e.sequence, offset) :: placements lz4 c (offset + (diskBytes lz4 c e).length) es

def diskImage (lz4 : Lz4) (c : Bool) (entries : List StorageEntry) : Bytes :=
  entries.flatMap (diskBytes lz4 c)

variable {e : StorageEntry}

section

variable {lz4 : Lz4} {c : Bool}

theorem diskImage_cons (e : StorageEntry) (es : List StorageEntry) :
    diskImage lz4 c (e :: es) = diskBytes lz4 c e ++ diskImage lz4 c es :=
  List.flatMap_cons

theorem diskImage_append (es es' : List StorageEntry) :
    diskImage lz4 c (es ++ es') = diskImage lz4 c es ++ diskImage lz4 c es' :=
  List.flatMap_append

theorem diskBytes_pos (e : StorageEntry) : 0 < (diskBytes lz4 c e).length := by
  have hlen : 4 ≤ (diskBytes lz4 c e).length := by
    cases c <;> simp [diskBytes]
  omega

theorem placements_append (offset : Nat) (es es' : List StorageEntry) :
    placements lz4 c offset (es ++ es') = placements lz4 c offset es ++
      placements lz4 c (offset + (diskImage lz4 c es).length) es' := by
  induction es generalizing offset with
  | nil => rfl
  | cons e es ih =>
    rw [List.cons_append, placements, ih, placements, diskImage_cons,
      List.length_append, Nat.add_assoc, List.cons_append]

private theorem placements_sequences (offset : Nat) (es : List StorageEntry) :
    (placements lz4 c offset es).map Prod.fst = es.map StorageEntry.sequence := by
  induction es generalizing offset with
  | nil => rfl
  | cons e es ih => rw [placements, List.map_cons, ih, List.map_cons]

theorem lookup_placements (offset : Nat) (es : List StorageEntry) (e : StorageEntry)
    (es' : List StorageEntry) (hlast : e.sequence ∉ es'.map StorageEntry.sequence) :
    (placements lz4 c offset (es ++ e :: es')).reverse.lookup e.sequence =
      some (offset + (diskImage lz4 c es).length) := by
  rw [List.lookup_eq_some_iff]
  refine ⟨(placements lz4 c
      (offset + (diskImage lz4 c es).length + (diskBytes lz4 c e).length) es').reverse,
    (placements lz4 c offset es).reverse, ?_, ?_⟩
  · rw [placements_append, placements, List.reverse_append, List.reverse_cons, List.append_assoc]
    rfl
  · intro p hp
    have hmem : p.1 ∈ es'.map StorageEntry.sequence := by
      have hplaced := List.mem_map_of_mem (f := Prod.fst) (List.mem_reverse.mp hp)
      rwa [placements_sequences] at hplaced
    rw [bne_iff_ne]
    intro heq
    exact hlast (heq ▸ hmem)

theorem diskImage_split (lz4 : Lz4) (c : Bool) {entries : List StorageEntry}
    (hdist : (entries.map StorageEntry.sequence).Nodup) (he : e ∈ entries) :
    ∃ before after, diskImage lz4 c entries = before ++ (diskBytes lz4 c e ++ after) ∧
      ∀ offset, (placements lz4 c offset entries).reverse.lookup e.sequence =
        some (offset + before.length) := by
  obtain ⟨es, es', rfl⟩ := List.append_of_mem he
  have hlast : e.sequence ∉ es'.map StorageEntry.sequence := by
    rw [List.map_append, List.map_cons] at hdist
    exact (List.nodup_cons.mp (List.nodup_append.mp hdist).2.1).1
  refine ⟨diskImage lz4 c es, diskImage lz4 c es', ?_, ?_⟩
  · rw [diskImage_append, diskImage_cons]
  · intro offset
    exact lookup_placements offset es e es' hlast

end

/-! ### Appends -/

variable {c : Bool}

section

variable (lz4 : Lz4)

/-- The results of entries that are written one after the other from an offset on. -/
def writeResults (segmentId : Nat) (c : Bool) : Nat → List StorageEntry → List WriteResult
  | _, [] => []
  | offset, e :: es =>
    { segmentId, offset, sizeOnDisk := (diskBytes lz4 c e).length } ::
      writeResults segmentId c (offset + (diskBytes lz4 c e).length) es

theorem map_offset_writeResults (segmentId : Nat) (c : Bool) (offset : Nat)
    (es : List StorageEntry) :
    (writeResults lz4 segmentId c offset es).map WriteResult.offset =
      (placements lz4 c offset es).map Prod.snd := by
  induction es generalizing offset with
  | nil => rfl
  | cons e es ih => rw [writeResults, placements, List.map_cons, List.map_cons, ih]

variable (w : SegmentWriter)

private theorem foldl_batchRound (es : List StorageEntry) (b : SegmentWriter.BatchBuffer) :
    let b' := es.foldl (SegmentWriter.batchRound lz4 w) b
    b'.results =
        b.results ++ writeResults lz4 w.segmentId w.enableCompression b.currentOffset es ∧
      b'.writeBuffer = b.writeBuffer ++ diskImage lz4 w.enableCompression es ∧
      b'.totalDiskBytes = b.totalDiskBytes + (diskImage lz4 w.enableCompression es).length := by
  induction es generalizing b with
  | nil => simp [writeResults, diskImage]
  | cons e es ih =>
    obtain ⟨hress, hbuf, htot⟩ := ih (SegmentWriter.batchRound lz4 w b e)
    simp only [List.foldl_cons]
    rw [hress, hbuf, htot]
    simp only [SegmentWriter.batchRound, writeResults, diskImage, List.flatMap_cons,
      List.length_append, List.append_assoc, List.singleton_append, Nat.add_assoc, and_self]

theorem writeBatch_eq (file : Bytes) (es : List StorageEntry) (hopen : w.isSealed = false) :
    w.writeBatch lz4 file es = .ok (
      writeResults lz4 w.segmentId w.enableCompression w.writePosition es,
      { w with
        writePosition := w.writePosition + (diskImage lz4 w.enableCompression es).length
        entryCount := w.entryCount + es.length },
      file ++ diskImage lz4 w.enableCompression es) := by
  cases es with
  | nil =>
    rw [SegmentWriter.writeBatch, if_neg (by simp [hopen])]
    simp [diskImage, writeResults]
  | cons e es =>
    obtain ⟨hress, hbuf, htot⟩ := foldl_batchRound lz4 w (e :: es)
      { results := [], writeBuffer := [], currentOffset := w.writePosition, totalDiskBytes := 0 }
    rw [SegmentWriter.writeBatch, hopen]
    simp only [Bool.false_eq_true, if_false, List.isEmpty_cons]
    rw [hress, hbuf, htot, List.nil_append, List.nil_append, Nat.zero_add]

def SegmentWriter.writeEach (w : SegmentWriter) (file : Bytes) :
    List StorageEntry → Outcome (List WriteResult × SegmentWriter × Bytes)
  | [] => .ok ([], w, file)
  | e :: es => do
    let (result, w, file) ← w.writeEntry lz4 file e
    let (results, w, file) ← w.writeEach file es
    .ok (result :: results, w, file)

private theorem writeEach_eq (file : Bytes) (es : List StorageEntry) (hopen : w.isSealed = false) :
    w.writeEach lz4 file es = .ok (
      writeResults lz4 w.segmentId w.enableCompression w.writePosition es,
      { w with
        writePosition := w.writePosition + (diskImage lz4 w.enableCompression es).length
        entryCount := w.entryCount + es.length },
      file ++ diskImage lz4 w.enableCompression es) := by
  induction es generalizing w file with
  | nil => simp [SegmentWriter.writeEach, writeResults, diskImage]
  | cons e es ih =>
    have hrest := ih
      { w with
        writePosition := w.writePosition + (diskBytes lz4 w.enableCompression e).length
        entryCount := w.entryCount + 1 }
      (file ++ diskBytes lz4 w.enableCompression e) hopen
    rw [SegmentWriter.writeEach, SegmentWriter.writeEntry, if_neg (by simp [hopen])]
    simp only [bind, Except.bind]
    rw [hrest]
    simp only [writeResults, diskImage_cons, List.length_append, List.length_cons,
      List.append_assoc, Nat.add_assoc, Nat.add_comm 1]

/-- On a writer that is not sealed, `write_batch` returns the same results and leaves the
same writer and file as `write_entry` called for the entries one after the other. -/
theorem writeBatch_eq_writeEach (w : SegmentWriter) (file : Bytes)
    (entries : List StorageEntry) (hopen : w.isSealed = false) :
    w.writeBatch lz4 file entries = w.writeEach lz4 file entries := by
  rw [writeBatch_eq lz4 w file entries hopen, writeEach_eq lz4 w file entries hopen]

theorem two_entries_written_alike :
    (SegmentWriter.new 1 [] true).writeBatch ⟨id, .ok⟩ [] [.new 42 7 [], .new 43 8 [1]] =
      (SegmentWriter.new 1 [] true).writeEach ⟨id, .ok⟩ [] [.new 42 7 [], .new 43 8 [1]] :=
  writeBatch_eq_writeEach ⟨id, .ok⟩ (.new 1 [] true) [] [.new 42 7 [], .new 43 8 [1]] rfl

theorem Catalogs.records {s : StorageSegment} (h : Catalogs s places) (offset : Nat)
    (es : List StorageEntry) :
    Catalogs
      ((es.zip ((placements lz4 c offset es).map Prod.snd)).foldl
        (fun s p => s.record (StorageSegment.indexEntry p.1 p.2)) s)
      (places ++ placements lz4 c offset es) := by
  induction es generalizing s places offset with
  | nil => simpa [placements] using h
  | cons e es ih =>
    have hstep := ih (h.record (StorageSegment.indexEntry e offset))
      (offset + (diskBytes lz4 c e).length)
    rw [List.append_assoc] at hstep
    exact hstep

end

/-- The calls that append. -/
inductive AppendCall where
  | entry (e : StorageEntry)
  | batch (es : List StorageEntry)

def AppendCall.entries : AppendCall → List StorageEntry
  | .entry e => [e]
  | .batch es => es

def appended (calls : List AppendCall) : List StorageEntry := calls.flatMap AppendCall.entries

def StorageSegment.append (lz4 : Lz4) (s : StorageSegment) : AppendCall → Outcome StorageSegment
  | .entry e => Prod.snd <$> s.appendEntry lz4 e
  | .batch es => Prod.snd <$> s.appendBatch lz4 es

def StorageSegment.appendAll (lz4 : Lz4) (s : StorageSegment) (calls : List AppendCall) :
    Outcome StorageSegment :=
  calls.foldlM (StorageSegment.append lz4) s

theorem appendAll_induction {lz4 : Lz4} {P : List StorageEntry → StorageSegment → Prop}
    (hstep : ∀ {entries s}, P entries s → ∀ call : AppendCall,
      ∃ s', s.append lz4 call = .ok s' ∧ P (entries ++ call.entries) s')
    {entries : List StorageEntry} (h : P entries s)
    (calls : List AppendCall) :
    ∃ s', s.appendAll lz4 calls = .ok s' ∧ P (entries ++ appended calls) s' := by
  induction calls generalizing entries s with
  | nil => exact ⟨s, rfl, by simpa [appended] using h⟩
  | cons call calls ih =>
    obtain ⟨s', hs', hnext⟩ := hstep h call
    obtain ⟨s'', hs'', hfinal⟩ := ih hnext
    refine ⟨s'', ?_, ?_⟩
    · rw [StorageSegment.appendAll, List.foldlM_cons, hs']
      exact hs''
    · rwa [List.append_assoc] at hfinal

section

variable {lz4 : Lz4} {s : StorageSegment} {w : SegmentWriter}

theorem append_entry_eq (hs : s.isSealed = false) (hw : s.writer = some w)
    (hopen : w.isSealed = false) (e : StorageEntry) :
    s.append lz4 (.entry e) = .ok
      { s.record (StorageSegment.indexEntry e w.writePosition) with
        file := s.file ++ diskBytes lz4 w.enableCompression e
        writer := some { w with
          writePosition := w.writePosition + (diskBytes lz4 w.enableCompression e).length
          entryCount := w.entryCount + 1 }
        entryCount := s.entryCount + 1
        fileSize := w.writePosition + (diskBytes lz4 w.enableCompression e).length } := by
  rw [StorageSegment.append, StorageSegment.appendEntry, if_neg (by simp [hs]), hw]
  dsimp only
  rw [SegmentWriter.writeEntry, if_neg (by simp [hopen])]
  rfl

theorem append_batch_eq {es : List StorageEntry} {results : List WriteResult} {w' : SegmentWriter}
    {file : Bytes} {offsets : List Nat} (hs : s.isSealed = false) (hw : s.writer = some w)
    (hwrite : w.writeBatch lz4 s.file es = .ok (results, w', file))
    (hoffsets : results.map WriteResult.offset = offsets) :
    s.append lz4 (.batch es) = .ok
      { (es.zip offsets).foldl (fun s p => s.record (StorageSegment.indexEntry p.1 p.2)) s with
        file
        writer := some w'
        entryCount := ((es.zip offsets).foldl
          (fun s p => s.record (StorageSegment.indexEntry p.1 p.2)) s).entryCount + es.length
        fileSize := w'.size } := by
  rw [StorageSegment.append, StorageSegment.appendBatch, if_neg (by simp [hs]), hw]
  dsimp only
  rw [hwrite, ← hoffsets]
  rfl

end

/-- The segment after the entries were appended to a file that held `base`. -/
structure Written (lz4 : Lz4) (c : Bool) (base : Bytes) (entries : List StorageEntry)
    (s : StorageSegment) : Prop where
  file : s.file = base ++ diskImage lz4 c entries
  writer : ∃ w, s.writer = some w ∧ w.writePosition = s.file.length ∧
    w.isSealed = false ∧ w.enableCompression = c
  catalog : Catalogs s (placements lz4 c base.length entries)
  count : s.entryCount = entries.length
  size : entries ≠ [] → s.fileSize = s.file.length
  reader : s.reader = none
  unsealed : s.isSealed = false

namespace Written

variable {lz4 : Lz4} {c : Bool} {base : Bytes} {entries : List StorageEntry} {s : StorageSegment}

theorem createNew (lz4 : Lz4) (id : Nat) (base : Bytes) (c : Bool) :
    Written lz4 c base [] (.createNew id base c) where
  file := (List.append_nil base).symm
  writer := ⟨_, rfl, rfl, rfl, rfl⟩
  catalog := ⟨fun _ => rfl, rfl, rfl⟩
  count := rfl
  size h := absurd rfl h
  reader := rfl
  unsealed := rfl

theorem length_file (h : Written lz4 c base entries s) :
    s.file.length = base.length + (diskImage lz4 c entries).length := by
  rw [h.file, List.length_append]

private theorem appendEntry (h : Written lz4 c base entries s) (e : StorageEntry) :
    ∃ s', s.append lz4 (.entry e) = .ok s' ∧ Written lz4 c base (entries ++ [e]) s' := by
  obtain ⟨w, hw, hpos, hopen, hc⟩ := h.writer
  have himage : diskImage lz4 c (entries ++ [e]) =
      diskImage lz4 c entries ++ diskBytes lz4 c e := by
    simp [diskImage]
  have hpl : placements lz4 c base.length (entries ++ [e]) =
      placements lz4 c base.length entries ++ [(e.sequence, w.writePosition)] := by
    rw [placements_append, hpos, h.length_file]
    rfl
  have hfile : s.file ++ diskBytes lz4 c e = base ++ diskImage lz4 c (entries ++ [e]) := by
    rw [himage, h.file, List.append_assoc]
  have hcat := h.catalog.record (StorageSegment.indexEntry e w.writePosition)
  subst hc
  refine ⟨_, append_entry_eq h.unsealed hw hopen e, ?_⟩
  exact
    { file := hfile
      writer := ⟨_, rfl, by simp [hpos], hopen, rfl⟩
      catalog := by
        rw [hpl]
        exact ⟨hcat.lookup, hcat.first, hcat.last⟩
      count := by simp [h.count]
      size := fun _ => by simp [hpos]
      reader := h.reader
      unsealed := h.unsealed }

private theorem foldl_record_frame (ps : List (StorageEntry × Nat)) (s : StorageSegment) :
    let s' := ps.foldl (fun s p => s.record (StorageSegment.indexEntry p.1 p.2)) s
    s'.entryCount = s.entryCount ∧ s'.reader = s.reader ∧ s'.isSealed = s.isSealed := by
  induction ps generalizing s with
  | nil => exact ⟨rfl, rfl, rfl⟩
  | cons p ps ih => exact ih (s.record (StorageSegment.indexEntry p.1 p.2))

variable (h : Written lz4 c base entries s)
include h

private theorem appendBatch (es : List StorageEntry) :
    ∃ s', s.append lz4 (.batch es) = .ok s' ∧ Written lz4 c base (entries ++ es) s' := by
  obtain ⟨w, hw, hpos, hopen, hc⟩ := h.writer
  subst hc
  have hwrite := writeBatch_eq lz4 w s.file es hopen
  have hoffsets := map_offset_writeResults lz4 w.segmentId w.enableCompression w.writePosition es
  have hpl : placements lz4 w.enableCompression base.length (entries ++ es) =
      placements lz4 w.enableCompression base.length entries ++
        placements lz4 w.enableCompression w.writePosition es := by
    rw [placements_append, hpos, h.length_file]
  have hfile : s.file ++ diskImage lz4 w.enableCompression es =
      base ++ diskImage lz4 w.enableCompression (entries ++ es) := by
    rw [diskImage_append, h.file, List.append_assoc]
  have hcat := h.catalog.records lz4 (c := w.enableCompression) w.writePosition es
  obtain ⟨hcnt, hrd, hseal⟩ := foldl_record_frame
    (es.zip ((placements lz4 w.enableCompression w.writePosition es).map Prod.snd)) s
  refine ⟨_, append_batch_eq h.unsealed hw hwrite hoffsets, ?_⟩
  exact
    { file := hfile
      writer := ⟨_, rfl, by simp [hpos], hopen, rfl⟩
      catalog := by
        rw [hpl]
        exact ⟨hcat.lookup, hcat.first, hcat.last⟩
      count := by
        rw [List.length_append, ← h.count, ← hcnt]
      size := fun _ => by simp [SegmentWriter.size, hpos]
      reader := hrd.trans h.reader
      unsealed := hseal.trans h.unsealed }

theorem append (call : AppendCall) :
    ∃ s', s.append lz4 call = .ok s' ∧ Written lz4 c base (entries ++ call.entries) s' := by
  cases call with
  | entry e => exact h.appendEntry e
  | batch es => exact h.appendBatch es

theorem appendAll (calls : List AppendCall) :
    ∃ s', s.appendAll lz4 calls = .ok s' ∧
      Written lz4 c base (entries ++ appended calls) s' :=
  appendAll_induction (P := Written lz4 c base) (fun h call => h.append call) h calls

theorem split (hdist : (entries.map StorageEntry.sequence).Nodup) (he : e ∈ entries) :
    ∃ before after, s.file = before ++ (diskBytes lz4 c e ++ after) ∧
      (s.sequenceIndex.lookup e.sequence).map IndexEntry.offset = some before.length := by
  obtain ⟨before, after, himage, hplace⟩ := diskImage_split lz4 c hdist he
  refine ⟨base ++ before, after, ?_, ?_⟩
  · rw [h.file, himage, List.append_assoc]
  · rw [h.catalog.lookup, hplace, List.length_append]

end Written

/-! ### Reading by sequence -/

/-- A read returns the sequence, the timestamp and the payload of an entry. -/
def Returns (outcome : Outcome StorageEntry) (e : StorageEntry) : Prop :=
  ∃ r, outcome = .ok r ∧ r.sequence = e.sequence ∧
    r.metadata.timestamp = e.metadata.timestamp ∧ r.payload = e.payload

theorem returns_stored (e : StorageEntry) : Returns (.ok e.stored) e :=
  ⟨e.stored, rfl, rfl, rfl, rfl⟩

/-- Before the segment is sealed there is no reader, afterwards it reads the file. -/
def StorageSegment.ReadsFile (s : StorageSegment) : Prop :=
  s.reader = none ∨ ∃ mapped, s.reader = some (.new mapped s.file)

theorem readEntryAtOffset_eq {lz4 : Lz4} {offset size : Nat} {data : Bytes} (hrd : s.ReadsFile)
    (hst : ∀ read, Serves read s.file → readStored lz4 read offset = .ok (data, size)) :
    s.readEntryAtOffset lz4 offset = StorageEntry.deserialize data := by
  rw [StorageSegment.readEntryAtOffset]
  rcases hrd with hnone | ⟨mapped, hsome⟩
  · rw [hnone]
    show s.readEntryAtOffsetFallback lz4 offset = _
    rw [StorageSegment.readEntryAtOffsetFallback, hst _ (serves_readExact _)]
    rfl
  · rw [hsome]
    show StorageSegment.readEntryWithReader lz4 _ offset = _
    rw [StorageSegment.readEntryWithReader, hst _ (serves_readAt mapped _)]
    rfl

theorem readEntryBySequence_eq {lz4 : Lz4} {k : UInt64}
    {offset size : Nat} {data : Bytes} (hrd : s.ReadsFile)
    (hlk : (s.sequenceIndex.lookup k).map IndexEntry.offset = some offset)
    (hst : ∀ read, Serves read s.file → readStored lz4 read offset = .ok (data, size)) :
    s.readEntryBySequence lz4 k = StorageEntry.deserialize data := by
  obtain ⟨e, he, rfl⟩ := Option.map_eq_some_iff.mp hlk
  rw [StorageSegment.readEntryBySequence, he]
  exact readEntryAtOffset_eq hrd hst

namespace Written

variable {lz4 : Lz4} {base : Bytes} {entries : List StorageEntry} {s : StorageSegment}

theorem readsFile (h : Written lz4 c base entries s) : s.ReadsFile := .inl h.reader

theorem readsFile_seal (h : Written lz4 c base entries s) (mapped : Bool) :
    (s.sealSegment mapped).ReadsFile := by
  rw [StorageSegment.ReadsFile, StorageSegment.sealSegment]
  by_cases hsize : s.fileSize > 0
  · exact .inr ⟨mapped, if_pos hsize⟩
  · exact .inl ((if_neg hsize).trans h.reader)

private theorem read_uncompressed (h : Written lz4 false base entries s)
    (hdist : (entries.map StorageEntry.sequence).Nodup) (he : e ∈ entries)
    (hlen : e.payload.length < 2 ^ 32) (mapped : Bool) :
    s.readEntryBySequence lz4 e.sequence = StorageEntry.deserialize e.header ∧
      (s.sealSegment mapped).readEntryBySequence lz4 e.sequence =
        StorageEntry.deserialize e.header := by
  obtain ⟨before, after, hfile, hlk⟩ := h.split hdist he
  have hst : ∀ read, Serves read s.file →
      readStored lz4 read before.length = .ok (e.header, 28) := by
    intro read hread
    rw [hfile] at hread
    exact readStored_uncompressed hread hlen
  exact ⟨readEntryBySequence_eq h.readsFile hlk hst,
    readEntryBySequence_eq (h.readsFile_seal mapped) hlk hst⟩

end Written

private theorem returns_deserialize_header_iff (e : StorageEntry) (hlen : e.payload.length < 2 ^ 32)
    :
    Returns (StorageEntry.deserialize e.header) e ↔ e.payload = [] := by
  rw [StorageEntry.deserialize_header e (by omega)]
  by_cases hemp : e.payload = []
  · rw [if_pos hemp]
    exact iff_of_true (returns_stored e) hemp
  · rw [if_neg hemp]
    refine iff_of_false ?_ hemp
    rintro ⟨r, hr, -⟩
    cases hr

/-- All these entries are read back by sequence, before and after the segment is sealed. -/
def ReadsBack (lz4 : Lz4) (mapped : Bool) (s : StorageSegment)
    (entries : List StorageEntry) : Prop :=
  ∀ e ∈ entries, Returns (s.readEntryBySequence lz4 e.sequence) e ∧
    Returns ((s.sealSegment mapped).readEntryBySequence lz4 e.sequence) e

theorem Written.readsBack_iff {lz4 : Lz4} {base : Bytes} {entries : List StorageEntry}
    (h : Written lz4 false base entries s) (hdist : (entries.map StorageEntry.sequence).Nodup)
    (hlen : ∀ e ∈ entries, e.payload.length < 2 ^ 32) (mapped : Bool) :
    ReadsBack lz4 mapped s entries ↔ ∀ e ∈ entries, e.payload = [] := by
  rw [ReadsBack]
  refine forall₂_congr fun e he => ?_
  obtain ⟨hbef, hafter⟩ := h.read_uncompressed hdist he (hlen e he) mapped
  rw [hbef, hafter, and_self, returns_deserialize_header_iff e (hlen e he)]

/-- Appending to an uncompressed segment always returns, and the entries are read back,
before and after sealing, exactly when all their payloads are empty: the readers take the
payload length from the upper half of the length that the writer stored. -/
theorem read_after_append_iff (lz4 : Lz4) (id : Nat) (base : Bytes) (mapped : Bool)
    (calls : List AppendCall) (hdist : ((appended calls).map StorageEntry.sequence).Nodup)
    (hlen : ∀ e ∈ appended calls, e.payload.length < 2 ^ 32) :
    ∃ s, (StorageSegment.createNew id base false).appendAll lz4 calls = .ok s ∧
      (ReadsBack lz4 mapped s (appended calls) ↔ ∀ e ∈ appended calls, e.payload = []) := by
  obtain ⟨s, hs, hwr⟩ := (Written.createNew lz4 id base false).appendAll calls
  rw [List.nil_append] at hwr
  exact ⟨s, hs, hwr.readsBack_iff hdist hlen mapped⟩

def storing : Lz4 where
  compress data := u32.putLe (.ofNat data.length) ++ data
  decompress data := .ok (data.drop 4)

theorem read_after_append_sample :
    ∃ s, (StorageSegment.createNew 1 [] false).appendAll storing
        [.entry (.new 42 7 []), .batch [.new 43 8 []]] = .ok s ∧
      (ReadsBack storing true s [.new 42 7 [], .new 43 8 []] ↔
        ∀ e ∈ [StorageEntry.new 42 7 [], .new 43 8 []], e.payload = []) :=
  read_after_append_iff storing 1 [] true [.entry (.new 42 7 []), .batch [.new 43 8 []]]
    (by decide) (by decide)

/-- One entry with a payload is not read back. -/
theorem not_read_after_append :
    ¬ ∀ (lz4 : Lz4) (id : Nat) (base : Bytes) (mapped : Bool) (calls : List AppendCall),
      ((appended calls).map StorageEntry.sequence).Nodup →
      (∀ e ∈ appended calls, e.payload.length < 2 ^ 32) →
      ∃ s, (StorageSegment.createNew id base false).appendAll lz4 calls = .ok s ∧
        ReadsBack lz4 mapped s (appended calls) := by
  intro hreadsBack
  obtain ⟨s, hs, hreads⟩ :=
    hreadsBack storing 2 [] false [.entry (.new 42 1234567890 [116])] (by decide) (by decide)
  obtain ⟨s', hs', hwr⟩ := (Written.createNew storing 2 [] false).appendAll
    [.entry (.new 42 1234567890 [116])]
  obtain rfl : s = s' := Except.ok.inj (hs.symm.trans hs')
  have hemp := (hwr.readsBack_iff (by decide) (by decide) false).mp hreads
    (.new 42 1234567890 [116]) (List.mem_singleton_self _)
  cases hemp

end Kaelix.Storage.Segments
