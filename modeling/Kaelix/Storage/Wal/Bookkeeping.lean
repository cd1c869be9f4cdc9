import Kaelix.Lib.Tiling
import Kaelix.Storage.Wal.Segment

/-!
# The bookkeeping of a segment

What `write_entry`, `sync` and `seal` of `wal/segment.rs` keep of a segment over all calls, failing
ones included, and what `can_accept` promises.
-/

namespace Kaelix.Storage.Wal

open Lib.Tiling

/-- `SyncPolicy`; an interval is given in milliseconds. -/
inductive SyncPolicy where
  | always
  | onBatch
  | never
  | interval (ms : Nat)
  | onShutdown
  deriving DecidableEq

namespace WalSegment

/-- `WalSegment::sync`: the file is flushed, whatever the policy except for `Never`.  Its
contents stay as they are. -/
def sync (s : WalSegment) (_policy : SyncPolicy) : WalSegment := s

def canAccept (s : WalSegment) (entrySize : Nat) : Bool :=
  !s.metadata.isSealed && decide (s.writePosition + entrySize ≤ s.metadata.capacity)

end WalSegment

/-! ### Histories of calls -/

/-- The segment's calls. -/
inductive SegmentCall where
  | write (entry : LogEntry)
  | sync (policy : SyncPolicy)
  | sealSegment
  deriving DecidableEq

/-- A segment, and the writes on it that returned `Ok`, with the positions returned. -/
structure SegmentHistory where
  segment : WalSegment
  written : List (Nat × LogEntry)

def writtenLength (p : Nat × LogEntry) : Nat := p.2.serialize.length

def byteRange (p : Nat × LogEntry) : Stretch := ⟨p.1, writtenLength p⟩

namespace SegmentHistory

def create (id capacity : Nat) (useMmap : Bool) : SegmentHistory :=
  { segment := .create id capacity useMmap, written := [] }

variable (r : SegmentHistory)

def call : SegmentCall → SegmentHistory
  | .write entry =>
    match r.segment.writeEntryInPlace entry with
    | (.ok position, segment) => { segment, written := r.written ++ [(position, entry)] }
    | (.error _, segment) => { r with segment }
  | .sync policy => { r with segment := r.segment.sync policy }
  | .sealSegment => { r with segment := (r.segment.sync .always).sealSegment }

def run (calls : List SegmentCall) : SegmentHistory := calls.foldl call r

theorem run_append (calls later : List SegmentCall) :
    r.run (calls ++ later) = (r.run calls).run later :=
  List.foldl_append

theorem call_cases (c : SegmentCall) :
    (∃ entry : LogEntry, r.segment.metadata.isSealed = false ∧
        ∃ hend : r.segment.writePosition + entry.serialize.length ≤ r.segment.file.length,
          r.call c =
            { segment := r.segment.advance entry hend
              written := r.written ++ [(r.segment.writePosition, entry)] }) ∨
      (c = .sealSegment ∧ r.call c = { r with segment := r.segment.sealSegment }) ∨
      (c ≠ .sealSegment ∧ r.call c = r) := by
  cases c with
  | write entry =>
    obtain ⟨-, hw⟩ | ⟨-, -, hw⟩ | ⟨hopen, hend, hw⟩ := r.segment.writeEntryInPlace_cases entry
    · refine .inr (.inr ⟨by simp, ?_⟩)
      rw [call, hw]
    · refine .inr (.inr ⟨by simp, ?_⟩)
      rw [call, hw]
    · refine .inl ⟨entry, hopen, hend, ?_⟩
      rw [call, hw]
  | sync => exact .inr (.inr ⟨by simp, rfl⟩)
  | sealSegment => exact .inr (.inl ⟨rfl, rfl⟩)

end SegmentHistory

/-- The counters and the file of a segment stand for the writes that succeeded. -/
structure Bookkeeping (capacity : Nat) (r : SegmentHistory) : Prop where
  size : r.segment.metadata.size = r.segment.writePosition
  position : r.segment.writePosition = (r.written.map writtenLength).sum
  limit : r.segment.metadata.capacity = capacity
  inside : r.segment.writePosition ≤ capacity
  count : r.segment.metadata.entryCount = r.written.length
  first : r.segment.metadata.firstSequence = r.written.head?.map fun p => p.2.sequenceNumber
  last : r.segment.metadata.lastSequence = r.written.getLast?.map fun p => p.2.sequenceNumber
  ranges : Tiles (r.written.map byteRange) 0 r.segment.writePosition
  stored : ∀ p ∈ r.written, (r.segment.file.drop p.1).take (writtenLength p) = p.2.serialize

namespace Bookkeeping

variable {capacity : Nat} {r : SegmentHistory}

theorem create (id capacity : Nat) (useMmap : Bool) :
    Bookkeeping capacity (.create id capacity useMmap) where
  size := rfl
  position := rfl
  limit := rfl
  inside := Nat.zero_le _
  count := rfl
  first := rfl
  last := rfl
  ranges :=
    { disjoint := .nil, covers := fun p => by simp [SegmentHistory.create, WalSegment.create] }
  stored _ hp := absurd hp List.not_mem_nil

variable (h : Bookkeeping capacity r)
include h

private theorem le_writePosition {p : Nat × LogEntry}
    (hp : p ∈ r.written) : p.1 + writtenLength p ≤ r.segment.writePosition := by
  have hpos : 0 < writtenLength p := by
    rw [writtenLength, LogEntry.length_serialize]
    omega
  have hcov := (h.ranges.covers (p.1 + writtenLength p - 1)).mp
    ⟨byteRange p, List.mem_map_of_mem hp, by
      rw [Stretch.mem_positions, byteRange]
      dsimp only
      omega⟩
  omega

private theorem advance (entry : LogEntry)
    (hend : r.segment.writePosition + entry.serialize.length ≤ r.segment.file.length) :
    Bookkeeping capacity
      { segment := r.segment.advance entry hend
        written := r.written ++ [(r.segment.writePosition, entry)] } := by
  have hlens : writtenLength (r.segment.writePosition, entry) = entry.serialize.length :=
    rfl
  refine
    { size := ?_, position := ?_, limit := ?_, inside := ?_, count := ?_, first := ?_,
      last := ?_, ranges := ?_, stored := ?_ }
  all_goals simp only [r.segment.advance_metadata, r.segment.advance_writePosition,
    r.segment.advance_file]
  · rw [List.map_append, List.sum_append, ← h.position, List.map_singleton,
      List.sum_singleton, hlens]
  · exact h.limit
  · rw [← h.limit, ← r.segment.length_file]
    exact hend
  · rw [List.length_append, ← h.count, List.length_singleton]
  · rw [h.first, List.head?_append]
    cases r.written.head? <;> rfl
  · rw [List.getLast?_concat, Option.map_some]
  · rw [List.map_append]
    exact h.ranges.concat (Nat.zero_le _) entry.serialize.length
  · intro p hp
    rcases List.mem_append.mp hp with hold | hnew
    · rw [slice_writeAt (h.le_writePosition hold) (by omega)]
      exact h.stored p hold
    · rw [List.mem_singleton.mp hnew, hlens]
      exact slice_writeAt_self (by omega)

theorem call (c : SegmentCall) : Bookkeeping capacity (r.call c) := by
  obtain ⟨entry, -, hend, hcall⟩ | ⟨-, hcall⟩ | ⟨-, hcall⟩ := r.call_cases c
  · rw [hcall]
    exact h.advance entry hend
  · rw [hcall]
    exact
      { size := h.size, position := h.position, limit := h.limit, inside := h.inside,
        count := h.count, first := h.first, last := h.last, ranges := h.ranges,
        stored := h.stored }
  · rw [hcall]
    exact h

theorem run (calls : List SegmentCall) : Bookkeeping capacity (r.run calls) := by
  induction calls generalizing r with
  | nil => exact h
  | cons c calls ih => exact ih (h.call c)

end Bookkeeping

/-- What was written is still there, at its place and with the same bytes around it. -/
structure Grows (r r' : SegmentHistory) : Prop where
  written : r.written <+: r'.written
  position : r.segment.writePosition ≤ r'.segment.writePosition
  file : r'.segment.file.take r.segment.writePosition =
    r.segment.file.take r.segment.writePosition
  identity : r'.segment.metadata.id = r.segment.metadata.id
  closed : r.segment.metadata.isSealed = true → r'.segment.metadata.isSealed = true

namespace Grows

variable (r : SegmentHistory)

private theorem refl : Grows r r := ⟨List.prefix_refl _, Nat.le_refl _, rfl, rfl, id⟩

private theorem trans {r r' r'' : SegmentHistory} (h : Grows r r') (h' : Grows r' r'') :
    Grows r r'' where
  written := h.written.trans h'.written
  position := Nat.le_trans h.position h'.position
  file := by
    have hsh := congrArg (List.take r.segment.writePosition) h'.file
    rw [List.take_take, List.take_take, Nat.min_eq_left h.position] at hsh
    exact hsh.trans h.file
  identity := h'.identity.trans h.identity
  closed hsl := h'.closed (h.closed hsl)

theorem call (c : SegmentCall) : Grows r (r.call c) := by
  obtain ⟨entry, hopen, hend, hcall⟩ | ⟨-, hcall⟩ | ⟨-, hcall⟩ := r.call_cases c
  · rw [hcall]
    refine ⟨List.prefix_append _ _, ?_, ?_, ?_, ?_⟩
    · exact Nat.le_add_right _ _
    · have hslice : ((writeAt r.segment.file r.segment.writePosition entry.serialize).drop
          0).take r.segment.writePosition =
            (r.segment.file.drop 0).take r.segment.writePosition :=
        slice_writeAt (by omega) (by omega)
      exact hslice
    · rw [r.segment.advance_metadata]
    · intro hsl
      cases hopen.symm.trans hsl
  · rw [hcall]
    exact ⟨List.prefix_refl _, Nat.le_refl _, rfl, rfl, fun _ => rfl⟩
  · rw [hcall]
    exact refl r

theorem run (calls : List SegmentCall) : Grows r (r.run calls) := by
  induction calls generalizing r with
  | nil => exact refl r
  | cons c calls ih => exact (call r c).trans (ih (r.call c))

end Grows

private theorem isSealed_of_seal_mem (r : SegmentHistory) {calls : List SegmentCall}
    (h : .sealSegment ∈ calls) : (r.run calls).segment.metadata.isSealed = true := by
  obtain ⟨before, after, rfl⟩ := List.append_of_mem h
  rw [SegmentHistory.run_append]
  exact (Grows.run ((r.run before).call .sealSegment) after).closed rfl

/-- After any calls of `write_entry`, `sync` and `seal` on a created segment, with a memory
map or without: the counters are those of the entries written, whose byte ranges tile the
segment up to the write position; a write that fails changes nothing; after a `seal` every
write is refused; and later calls add to what was written and do not change it. -/
theorem segment_bookkeeping (id capacity : Nat) (useMmap : Bool) (calls : List SegmentCall) :
    Bookkeeping capacity ((SegmentHistory.create id capacity useMmap).run calls) ∧
      (∀ entry e s,
        ((SegmentHistory.create id capacity useMmap).run calls).segment.writeEntryInPlace
          entry = (.error e, s) →
        s = ((SegmentHistory.create id capacity useMmap).run calls).segment) ∧
      (.sealSegment ∈ calls → ∀ entry,
        (((SegmentHistory.create id capacity useMmap).run calls).segment.writeEntryInPlace
          entry).1 = .error (.segmentSealed id)) ∧
      ∀ later,
        Grows ((SegmentHistory.create id capacity useMmap).run calls)
          ((SegmentHistory.create id capacity useMmap).run (calls ++ later)) := by
  refine ⟨(Bookkeeping.create id capacity useMmap).run calls, ?_, ?_, ?_⟩
  · intro entry e s hw
    exact WalSegment.writeEntryInPlace_error hw
  · intro hseal entry
    have hsl := isSealed_of_seal_mem (.create id capacity useMmap) hseal
    have hid : ((SegmentHistory.create id capacity useMmap).run calls).segment.metadata.id
        = id := (Grows.run (.create id capacity useMmap) calls).identity
    rw [WalSegment.writeEntryInPlace_sealed hsl, hid]
  · intro later
    rw [SegmentHistory.run_append]
    exact Grows.run _ later

/-! ### The capacity check -/

/-- A segment that accepts the estimated size of an entry writes the entry exactly when it
is sealed and accepts nothing, has no room for the estimate, or has room for the bytes of
the entry, which are 15 more than the estimate. -/
theorem can_accept_iff (s : WalSegment) (entry : LogEntry) :
    (s.canAccept entry.serializedSize = true →
        ∃ position, (s.writeEntryInPlace entry).1 = .ok position) ↔
      s.metadata.isSealed = true ∨
        s.metadata.capacity < s.writePosition + 24 + entry.payload.length ∨
        s.writePosition + 39 + entry.payload.length ≤ s.metadata.capacity := by
  have haccept : s.canAccept entry.serializedSize = true ↔
      s.metadata.isSealed = false ∧
        s.writePosition + 24 + entry.payload.length ≤ s.metadata.capacity := by
    rw [WalSegment.canAccept, Bool.and_eq_true, Bool.not_eq_true', decide_eq_true_eq,
      LogEntry.serializedSize, Nat.add_assoc]
  have hlen := entry.length_serialize
  rw [haccept]
  obtain ⟨hsl, hw⟩ | ⟨hopen, hfull, hw⟩ | ⟨hopen, hend, hw⟩ := s.writeEntryInPlace_cases entry
  · exact iff_of_true (fun h => by simp [hsl] at h) (.inl hsl)
  · have hfails : ¬ ∃ position, (s.writeEntryInPlace entry).1 = .ok position := by
      rw [hw]
      rintro ⟨position, hok⟩
      cases hok
    simp only [hopen, true_and, hfails, imp_false, Bool.false_eq_true, false_or]
    omega
  · refine iff_of_true (fun _ => ⟨_, congrArg Prod.fst hw⟩) (.inr (.inr ?_))
    rw [s.length_file] at hend
    omega

/-- A segment of 30 bytes accepts an entry of 39. -/
theorem can_accept_unsound :
    ¬ ∀ (s : WalSegment) (entry : LogEntry),
      s.canAccept entry.serializedSize = true →
        ∃ position, (s.writeEntryInPlace entry).1 = .ok position := by
  intro hsound
  obtain ⟨position, hok⟩ := hsound (.create 1 30 true) sampleEntry (by decide)
  have hfull : (WalSegment.create 1 30 true).metadata.capacity <
      (WalSegment.create 1 30 true).writePosition + sampleEntry.serialize.length := by
    decide
  rw [WalSegment.writeEntryInPlace_full rfl hfull] at hok
  cases hok

end Kaelix.Storage.Wal
