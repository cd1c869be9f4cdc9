import Kaelix.Storage.Segments.Scan

/-!
# What recovery counts

Recovery goes over the file once, and what it counts as recovered or as corrupted is what it moves
past.  At the end, or when the rest is given up, the counters add up to the file.
-/

namespace Kaelix.Storage.Segments

open Lib Lib.BigEndian

/-- Where an entry lies. -/
structure Extent where
  offset : Nat
  size : Nat
  entry : StorageEntry

variable {lz4 : Lz4} {file : Bytes}

namespace Extent

def stop (x : Extent) : Nat := x.offset + x.size

def bytes (x : Extent) (file : Bytes) : Bytes := (file.drop x.offset).take x.size

/-- The entry can be read at its place. -/
def Found (lz4 : Lz4) (file : Bytes) (x : Extent) : Prop :=
  readEntryAtOffsetDuringRecovery lz4 file x.offset = .ok (x.entry, x.size)

theorem Found.stop_le {x : Extent} (h : x.Found lz4 file) :
    x.offset < x.stop ∧ x.stop ≤ file.length := by
  obtain ⟨hpos, hle, -⟩ := readDuringRecovery_part h
  unfold stop
  omega

end Extent

/-- The extents that the loop of `recover_segment` accepts within a number of rounds. -/
def Recovery.extents (lz4 : Lz4) (overflowChecks : Bool) (fuel : Nat) :
    Nat → Recovery → List Extent
  | 0, _ => []
  | n + 1, r =>
    match r.round lz4 overflowChecks fuel with
    | .inr _ => []
    | .inl r' =>
      match readEntryAtOffsetDuringRecovery lz4 r.segment.file r.currentOffset with
      | .ok (entry, size) =>
        ⟨r.currentOffset, size, entry⟩ :: Recovery.extents lz4 overflowChecks fuel n r'
      | .error _ => Recovery.extents lz4 overflowChecks fuel n r'

def StorageSegment.recoveredExtents (lz4 : Lz4) (overflowChecks : Bool) (fuel : Nat)
    (s : StorageSegment) : List Extent :=
  Recovery.extents lz4 overflowChecks fuel fuel { segment := s, info := {}, currentOffset := 0 }

/-- The counts are those of the entries found. -/
structure Tallied (lz4 : Lz4) (file : Bytes) (xs : List Extent) (r : Recovery) : Prop where
  count : r.info.entriesRecovered = xs.length
  recovered : r.info.bytesRecovered = (xs.map Extent.size).sum
  catalog : Catalogs r.segment (xs.map fun x => (x.entry.sequence, x.offset))
  ordered : xs.Pairwise fun x y => x.stop ≤ y.offset
  found : ∀ x ∈ xs, x.Found lz4 file

/-- Every byte so far is recovered or corrupted. -/
structure Accounted (lz4 : Lz4) (file : Bytes) (xs : List Extent) (r : Recovery) : Prop
    extends Tallied lz4 file xs r where
  onFile : OnFile file r
  offset_le : r.currentOffset ≤ file.length
  total : r.info.bytesRecovered + r.info.bytesCorrupted = r.currentOffset
  behind : ∀ x ∈ xs, x.stop ≤ r.currentOffset

variable {overflowChecks : Bool} {fuel : Nat}

namespace Accounted

variable {lz4 : Lz4} {file : Bytes} {xs : List Extent} {r : Recovery}

private theorem unrecovered (lz4 : Lz4) (id : Nat) (file : Bytes) (c : Bool) :
    Accounted lz4 file []
      { segment := .unrecovered id file c, info := {}, currentOffset := 0 } where
  count := rfl
  recovered := rfl
  catalog := ⟨fun _ => rfl, rfl, rfl⟩
  ordered := .nil
  found := by simp
  onFile := onFile_unrecovered id file c
  offset_le := Nat.zero_le _
  total := rfl
  behind := by simp

section

variable (h : Accounted lz4 file xs r)
include h

private theorem accept {entry : StorageEntry} {size : Nat}
    (hread : readEntryAtOffsetDuringRecovery lz4 file r.currentOffset = .ok (entry, size)) :
    Accounted lz4 file (xs ++ [⟨r.currentOffset, size, entry⟩]) (r.accept entry size) where
  count := by
    rw [List.length_append, ← h.count]
    rfl
  recovered := by
    rw [List.map_append, List.sum_append, ← h.recovered]
    simp [Recovery.accept]
  catalog := by
    have hcat := h.catalog.record
      { sequence := entry.sequence, offset := r.currentOffset, size := .ofNat size,
        timestamp := entry.metadata.timestamp }
    rw [List.map_append]
    exact ⟨hcat.lookup, hcat.first, hcat.last⟩
  ordered := by
    refine List.pairwise_append.mpr ⟨h.ordered, List.pairwise_singleton _ _, ?_⟩
    intro x hx y hy
    rw [List.mem_singleton.mp hy]
    exact h.behind x hx
  found x hx := by
    rcases List.mem_append.mp hx with hx | hx
    · exact h.found x hx
    · rw [List.mem_singleton.mp hx]
      exact hread
  onFile := h.onFile.accept entry size
  offset_le := by
    obtain ⟨hpos, hle, -⟩ := readDuringRecovery_part hread
    change r.currentOffset + size ≤ file.length
    omega
  total := by
    have htot := h.total
    change r.info.bytesRecovered + size + r.info.bytesCorrupted = r.currentOffset + size
    omega
  behind x hx := by
    rcases List.mem_append.mp hx with hx | hx
    · exact Nat.le_add_right_of_le (h.behind x hx)
    · rw [List.mem_singleton.mp hx]
      exact Nat.le_refl _

private theorem skip {next : Nat} (hlt : r.currentOffset < next)
    (hle : next ≤ file.length) : Accounted lz4 file xs (r.skip next) where
  count := h.count
  recovered := h.recovered
  catalog := h.catalog
  ordered := h.ordered
  found := h.found
  onFile := h.onFile.skip next
  offset_le := hle
  total := by
    have htot := h.total
    change r.info.bytesRecovered + (r.info.bytesCorrupted + (next - r.currentOffset)) = next
    omega
  behind x hx := (h.behind x hx).trans hlt.le

private theorem finish {r' : Recovery}
    (hround : r.round lz4 overflowChecks fuel = .inr (some (.ok r'))) :
    Tallied lz4 file xs r' ∧
      r'.info.bytesRecovered + r'.info.bytesCorrupted = file.length := by
  have htot := h.total
  have hoff := h.offset_le
  obtain ⟨hge, hok⟩ | ⟨e, hlt, -, -, hok⟩ | ⟨message, hok⟩ := h.onFile.round_done hround
  · obtain rfl := Except.ok.inj hok
    exact ⟨h.toTallied, by omega⟩
  · obtain rfl := Except.ok.inj hok
    refine ⟨⟨h.count, h.recovered, h.catalog, h.ordered, h.found⟩, ?_⟩
    change r.info.bytesRecovered +
      (r.info.bytesCorrupted + (file.length - r.currentOffset)) = file.length
    omega
  · cases hok

end

private theorem run (hsize : file.length < 2 ^ 64) (n : Nat) {r' : Recovery}
    (h : Accounted lz4 file xs r)
    (hrun : Loop.iterate (Recovery.round lz4 overflowChecks fuel) n r = some (some (.ok r'))) :
    Tallied lz4 file (xs ++ Recovery.extents lz4 overflowChecks fuel n r) r' ∧
      r'.info.bytesRecovered + r'.info.bytesCorrupted = file.length := by
  induction n generalizing r xs with
  | zero => cases hrun
  | succ n ih =>
    rw [Loop.iterate] at hrun
    rw [Recovery.extents]
    split at hrun
    · next next hround =>
        rw [hround]
        dsimp only
        obtain ⟨entry, size, hread, rfl⟩ | ⟨e, offset, hread, hfind, rfl⟩ :=
          h.onFile.round_next hround
        · rw [h.onFile.contents, hread]
          have hrest := ih (h.accept hread) hrun
          rwa [List.append_assoc] at hrest
        · obtain ⟨hlt, hle⟩ := findNextValidEntry_finds hsize hfind
          rw [h.onFile.contents, hread]
          exact ih (h.skip hlt (by omega)) hrun
    · next result hround =>
        cases hrun
        rw [hround]
        dsimp only
        rw [List.append_nil]
        exact h.finish hround

end Accounted

theorem tallied_of_recoverSegment {id : Nat} {c : Bool} {s : StorageSegment}
    (hsize : file.length < 2 ^ 64)
    (hrun : StorageSegment.recoverSegment lz4 overflowChecks fuel (.unrecovered id file c) =
      some (.ok s)) :
    ∃ r, Tallied lz4 file (StorageSegment.recoveredExtents lz4 overflowChecks fuel
        (.unrecovered id file c)) r ∧
      r.info.bytesRecovered + r.info.bytesCorrupted = file.length ∧
      { r.segment with recoveryInfo := r.info } = s := by
  obtain ⟨ended, hiter, hended⟩ := exits_of_recoverSegment hrun
  cases ended with
  | error => cases hended
  | ok r =>
    obtain ⟨h, htot⟩ := (Accounted.unrecovered lz4 id file c).run hsize fuel hiter
    rw [List.nil_append] at h
    exact ⟨r, h, htot, (Except.ok.inj hended).symm⟩

/-- Where recovery returns, it has counted every byte of the file as recovered or as
corrupted; the index stands for the recovered extents, which follow each other inside the
file; and each extent on its own is the recovered entry, which is valid. -/
theorem recovery_accounts (lz4 : Lz4) (overflowChecks : Bool) (fuel id : Nat) (file : Bytes)
    (c : Bool) (s : StorageSegment) (hsize : file.length < 2 ^ 64)
    (hrun : StorageSegment.recoverSegment lz4 overflowChecks fuel
      (.unrecovered id file c) = some (.ok s)) :
    let xs := StorageSegment.recoveredExtents lz4 overflowChecks fuel (.unrecovered id file c)
    s.recoveryInfo.bytesRecovered + s.recoveryInfo.bytesCorrupted = file.length ∧
      s.recoveryInfo.bytesRecovered = (xs.map Extent.size).sum ∧
      s.recoveryInfo.entriesRecovered = xs.length ∧
      Catalogs s (xs.map fun x => (x.entry.sequence, x.offset)) ∧
      xs.Pairwise (fun x y => x.offset < y.offset ∧ x.stop ≤ y.offset) ∧
      ∀ x ∈ xs, x.stop ≤ file.length ∧ x.entry.validate = .ok () ∧
        readEntryAtOffsetDuringRecovery lz4 (x.bytes file) 0 = .ok (x.entry, x.size) := by
  obtain ⟨r, h, htot, rfl⟩ := tallied_of_recoverSegment hsize hrun
  have hcat := h.catalog
  refine ⟨htot, h.recovered, h.count, ⟨hcat.lookup, hcat.first, hcat.last⟩, ?_, ?_⟩
  · exact h.ordered.imp_of_mem fun hx _ hle => ⟨(h.found _ hx).stop_le.1.trans_le hle, hle⟩
  · intro x hx
    obtain ⟨-, -, hvalid, halone⟩ := readDuringRecovery_part (h.found x hx)
    exact ⟨(h.found x hx).stop_le.2, hvalid, halone⟩

def sampleFile : Bytes := diskBytes storing true (.new 42 7 []) ++ [0]

theorem recovery_accounts_sample :
    ∃ s, StorageSegment.recoverSegment storing true 3 (.unrecovered 1 sampleFile true) =
        some (.ok s) ∧
      s.recoveryInfo.bytesRecovered + s.recoveryInfo.bytesCorrupted = 33 := by
  obtain ⟨s, hrun⟩ : ∃ s, StorageSegment.recoverSegment storing true 3
      (.unrecovered 1 sampleFile true) = some (.ok s) := ⟨_, rfl⟩
  exact ⟨s, hrun, (recovery_accounts storing true 3 1 sampleFile true s (by decide) hrun).1⟩

end Kaelix.Storage.Segments
