import Kaelix.Lib.History
import Kaelix.Storage.Wal.Bookkeeping
import Kaelix.Storage.Wal.Log
import Std.Data.String.ToNat

/-!
# Rotation

`RotationManager` of `wal/rotation.rs`, and the log of `wal/mod.rs` as far as rotation concerns
it: `Wal::write` never asks the manager, and the manager that `Wal::new` makes does not know the
segment of the log.
-/

namespace Kaelix.Storage.Wal

open Lib

/-! ### Writes without rotation -/

/-- A message that is written, and the time of the write. -/
structure Submission where
  now : UInt64
  message : Bytes
  length_lt : message.length < 2 ^ 64

namespace Submission

def call (m : Submission) : WalCall := .write m.now m.message m.length_lt

def entry (crc32 : Bytes → UInt32) (m : Submission) : LogEntry :=
  Wal.entry crc32 m.now m.message m.length_lt

end Submission

/-- The log is open, and its segment of this capacity is filled up to a position. -/
def OpenAt (capacity position : Nat) (w : Wal) : Prop :=
  w.shutdownFlag = false ∧ ∃ segment, w.activeSegment = some segment ∧
    segment.metadata.isSealed = false ∧ segment.metadata.capacity = capacity ∧
    segment.writePosition = position

variable {config : WalConfig} {directory : Directory} {w : Wal}

theorem openAt_new (h : Wal.new config directory = .ok w) : OpenAt config.segmentSize 0 w := by
  unfold Wal.new at h
  split at h
  · cases h
  · cases h
    exact ⟨rfl, _, rfl, rfl, rfl, rfl⟩

/-- The write of the message returns `Ok`. -/
def Acknowledges (crc32 : Bytes → UInt32) (r : WalHistory) (m : Submission) : Prop :=
  ∃ position wal, r.wal.write crc32 m.now m.message m.length_lt = .ok (position, wal)

def WalHistory.submit (crc32 : Bytes → UInt32) (r : WalHistory) (m : Submission) : WalHistory :=
  r.call crc32 m.call

variable {crc32 : Bytes → UInt32}

theorem WalHistory.submit_of_write {r : WalHistory} {m : Submission} {position : Nat} {wal : Wal}
    (h : r.wal.write crc32 m.now m.message m.length_lt = .ok (position, wal)) :
    r.submit crc32 m = { wal, acknowledged := r.acknowledged ++ [m.entry crc32] } := by
  rw [submit, Submission.call, WalHistory.call, h]
  rfl

/-- The room that the entries of messages take. -/
def roomFor (crc32 : Bytes → UInt32) (ms : List Submission) : Nat :=
  (ms.map fun m => (m.entry crc32).serialize.length).sum

section

variable {crc32 : Bytes → UInt32} {capacity position : Nat} {r : WalHistory} {m : Submission}

theorem OpenAt.write (h : OpenAt capacity position w)
    (hfits : position + (m.entry crc32).serialize.length ≤ capacity) :
    ∃ w', w.write crc32 m.now m.message m.length_lt = .ok (position, w') ∧
      OpenAt capacity (position + (m.entry crc32).serialize.length) w' := by
  obtain ⟨hopen, segment, hseg, huns, rfl, rfl⟩ := h
  have hend := WalSegment.le_length_file hfits
  have hwrite := WalSegment.writeEntry_fits huns hend
  refine ⟨{ w with
      activeSegment := some (segment.advance (m.entry crc32) hend)
      stats :=
        { entriesWritten := w.stats.entriesWritten + 1
          bytesWritten := w.stats.bytesWritten + (m.entry crc32).serializedSize } },
    ?_, hopen, _, rfl, ?_, ?_, ?_⟩
  · rw [Wal.write, if_neg (by simp [hopen]), hseg]
    dsimp only
    rw [← Submission.entry, hwrite]
    rfl
  · rw [segment.advance_metadata]
    exact huns
  · rw [segment.advance_metadata]
  · rw [segment.advance_writePosition]

theorem OpenAt.submit (h : OpenAt capacity position r.wal)
    (hfits : position + (m.entry crc32).serialize.length ≤ capacity) :
    Acknowledges crc32 r m ∧
      OpenAt capacity (position + (m.entry crc32).serialize.length) (r.submit crc32 m).wal ∧
      (r.submit crc32 m).acknowledged = r.acknowledged ++ [m.entry crc32] := by
  obtain ⟨w', hw', hopen⟩ := h.write hfits
  rw [WalHistory.submit_of_write hw']
  exact ⟨⟨_, _, hw'⟩, hopen, rfl⟩

theorem OpenAt.refuse (h : OpenAt capacity position r.wal)
    (hfull : capacity < position + (m.entry crc32).serialize.length) :
    ¬ Acknowledges crc32 r m := by
  obtain ⟨hopen, segment, hseg, huns, rfl, rfl⟩ := h
  rintro ⟨position, wal, hok⟩
  rw [Wal.write, if_neg (by simp [hopen]), hseg] at hok
  dsimp only at hok
  rw [← Submission.entry, WalSegment.writeEntry_full huns hfull] at hok
  cases hok

theorem OpenAt.acknowledges_iff (crc32 : Bytes → UInt32) (h : OpenAt capacity position r.wal)
    (hle : position ≤ capacity) (ms : List Submission) :
    EachStep (WalHistory.submit crc32) (Acknowledges crc32) r ms ↔
      position + roomFor crc32 ms ≤ capacity := by
  induction ms generalizing r position with
  | nil => exact iff_of_true eachStep_nil hle
  | cons m ms ih =>
    have hroom : position + roomFor crc32 (m :: ms) =
        position + (m.entry crc32).serialize.length + roomFor crc32 ms := by
      rw [roomFor, List.map_cons, List.sum_cons, Nat.add_assoc]
      rfl
    rw [eachStep_cons, hroom]
    rcases Nat.lt_or_ge capacity (position + (m.entry crc32).serialize.length)
      with hfull | hfits
    · refine iff_of_false (fun hall => h.refuse hfull hall.1) ?_
      omega
    · obtain ⟨hok, hopen, -⟩ := h.submit hfits
      rw [ih hopen hfits]
      exact and_iff_right hok

private theorem acknowledged_of_eachStep {ms : List Submission}
    (h : EachStep (WalHistory.submit crc32) (Acknowledges crc32) r ms) :
    (ms.foldl (WalHistory.submit crc32) r).acknowledged =
      r.acknowledged ++ ms.map (Submission.entry crc32) := by
  induction ms generalizing r with
  | nil => exact (List.append_nil _).symm
  | cons m ms ih =>
    obtain ⟨⟨position, wal, hok⟩, hrest⟩ := eachStep_cons.mp h
    rw [List.foldl_cons, ih hrest, WalHistory.submit_of_write hok, List.append_assoc]
    rfl

end

/-- The log behaves as one unbounded log for these messages: every write returns `Ok`, and
the sequence numbers of the entries increase. -/
def Unbounded (crc32 : Bytes → UInt32) (wal : Wal) (ms : List Submission) : Prop :=
  EachStep (WalHistory.submit crc32) (Acknowledges crc32) { wal, acknowledged := [] } ms ∧
    (ms.foldl (WalHistory.submit crc32) { wal, acknowledged := [] }).acknowledged.Pairwise
      fun a b => a.sequenceNumber < b.sequenceNumber

private theorem pairwise_sequence_iff (crc32 : Bytes → UInt32) (ms : List Submission) :
    (ms.map (Submission.entry crc32)).Pairwise
        (fun a b => a.sequenceNumber < b.sequenceNumber) ↔ ms.length ≤ 1 := by
  cases ms with
  | nil => exact iff_of_true .nil (Nat.zero_le _)
  | cons m ms =>
    cases ms with
    | nil => exact iff_of_true (List.pairwise_singleton _ _) (Nat.le_refl _)
    | cons m' =>
      refine iff_of_false ?_ (by simp)
      intro h
      have hlt := (List.pairwise_cons.mp h).1 (m'.entry crc32) List.mem_cons_self
      exact absurd hlt (by decide : ¬ (1 : UInt64) < 1)

/-- On a new log the messages are all acknowledged exactly when one segment has room for
all of them, as the log is never rotated.  If each of them fits into an empty segment, the
log behaves as one unbounded log exactly when there is at most one message. -/
theorem unbounded_log_iff (crc32 : Bytes → UInt32) (config : WalConfig) (directory : Directory)
    (wal : Wal) (hwal : Wal.new config directory = .ok wal) (ms : List Submission)
    (hfits : ∀ m ∈ ms, (m.entry crc32).serialize.length ≤ config.segmentSize) :
    (EachStep (WalHistory.submit crc32) (Acknowledges crc32) { wal, acknowledged := [] } ms ↔
        roomFor crc32 ms ≤ config.segmentSize) ∧
      (Unbounded crc32 wal ms ↔ ms.length ≤ 1) := by
  have hall := OpenAt.acknowledges_iff (r := { wal, acknowledged := [] }) crc32
    (openAt_new hwal) (Nat.zero_le _) ms
  rw [Nat.zero_add] at hall
  refine ⟨hall, ?_⟩
  rw [Unbounded]
  constructor
  · rintro ⟨hack, hseq⟩
    rwa [acknowledged_of_eachStep hack, List.nil_append,
      pairwise_sequence_iff] at hseq
  · intro hone
    have hroom : roomFor crc32 ms ≤ config.segmentSize := by
      cases ms with
      | nil => exact Nat.zero_le _
      | cons m ms =>
        obtain rfl : ms = [] := List.length_eq_zero_iff.mp (by simpa using hone)
        simpa [roomFor] using hfits m List.mem_cons_self
    have hack := hall.mpr hroom
    refine ⟨hack, ?_⟩
    rw [acknowledged_of_eachStep hack, List.nil_append]
    exact (pairwise_sequence_iff crc32 ms).mpr hone

def sampleSubmission : Submission := ⟨12345, [], LogEntry.length_nil_lt⟩

theorem unbounded_log_sample :
    ∃ wal, Wal.new sampleConfig ∅ = .ok wal ∧
      (EachStep (WalHistory.submit fun _ => 0) (Acknowledges fun _ => 0)
          { wal, acknowledged := [] } [sampleSubmission] ↔
        roomFor (fun _ => 0) [sampleSubmission] ≤ sampleConfig.segmentSize) ∧
      (Unbounded (fun _ => 0) wal [sampleSubmission] ↔ [sampleSubmission].length ≤ 1) :=
  ⟨_, rfl, unbounded_log_iff (fun _ => 0) sampleConfig ∅ _ rfl [sampleSubmission] (by decide)⟩

/-- Of two messages, each of which fits into a segment of 64 bytes, the second is refused;
in a segment with room for both they get the same sequence number. -/
theorem log_not_unbounded :
    ¬ ∀ (crc32 : Bytes → UInt32) (config : WalConfig) (directory : Directory) (wal : Wal),
      Wal.new config directory = .ok wal → ∀ ms : List Submission,
      (∀ m ∈ ms, (m.entry crc32).serialize.length ≤ config.segmentSize) →
        Unbounded crc32 wal ms := by
  intro hunbounded
  obtain ⟨wal, hwal⟩ : ∃ wal, Wal.new sampleConfig ∅ = .ok wal := ⟨_, rfl⟩
  obtain ⟨hack, -⟩ := hunbounded (fun _ => 0) sampleConfig ∅ wal hwal
    [sampleSubmission, sampleSubmission] (by decide)
  have hroom := (OpenAt.acknowledges_iff _ (openAt_new hwal) (Nat.zero_le _) _).mp hack
  exact absurd hroom (by decide)

/-! ### Segments by the names of their files -/

def segmentPath (id : Nat) : String := s!"{id}.wal"

theorem segmentPath_one : segmentPath 1 = initialSegment := rfl

theorem segmentPath_ne_initial {id : Nat} (h : id ≠ 1) : segmentPath id ≠ initialSegment := by
  intro heq
  have happ : Nat.repr id ++ ".wal" = Nat.repr 1 ++ ".wal" := heq
  exact h (Nat.repr_inj.mp (String.append_left_inj _ |>.mp happ))

/-- Where the creation of a segment fails, with the error of the system. -/
inductive CreationFault where
  | createDir (e : String)
  | openFile (e : String)
  | setLen (e : String)
  | mapFile (e : String)
  deriving DecidableEq

namespace SegmentHandle

section

variable (h : SegmentHandle)
include h

def path : String := segmentPath h.metadata.id

def sealSegment : SegmentHandle :=
  { h with metadata := { h.metadata with isSealed := true } }

end

/-- `WalSegment::create`, with a fault: the result, and the files afterwards. -/
def create (id capacity : Nat) (useMmap : Bool) (fault : Option CreationFault)
    (files : Directory) : Except WalError SegmentHandle × Directory :=
  let zeros := List.replicate capacity 0
  match fault with
  | some (.createDir e) => (.error (.io s!"Failed to create directory: {e}"), files)
  | some (.openFile e) => (.error (.io s!"Failed to create segment file: {e}"), files)
  | some (.setLen e) =>
    (.error (.io s!"Failed to pre-allocate segment: {e}"), AList.insert (segmentPath id) [] files)
  | some (.mapFile e) =>
    if useMmap && decide (capacity > 0) then
      (.error (.io s!"Failed to create memory map: {e}"),
        files.insert (segmentPath id) zeros)
    else
      (.ok (WalSegment.create id capacity useMmap).handle,
        files.insert (segmentPath id) zeros)
  | none =>
    (.ok (WalSegment.create id capacity useMmap).handle,
      files.insert (segmentPath id) zeros)

end SegmentHandle

/-- A creation with this fault opens the file, and so truncates it. -/
def truncates : Option CreationFault → Bool
  | some (.createDir _) => false
  | some (.openFile _) => false
  | _ => true

/-- A creation with this fault succeeds; without a memory map nothing is mapped that
could fail. -/
def creates (config : WalConfig) : Option CreationFault → Bool
  | none => true
  | some (.mapFile _) => !(config.useMmap && decide (config.segmentSize > 0))
  | _ => false

/-- Why a segment is rotated. -/
inductive RotationTrigger where
  | size
  | time
  | count
  | manual
  | diskSpace
  | shutdown
  deriving DecidableEq

structure RotationStats where
  totalRotations : Nat := 0
  sizeRotations : Nat := 0
  timeRotations : Nat := 0
  countRotations : Nat := 0
  manualRotations : Nat := 0
  diskSpaceRotations : Nat := 0
  shutdownRotations : Nat := 0
  activeSegmentId : Option Nat := none
  segmentsCreated : Nat := 0
  segmentsSealed : Nat := 0
  deriving DecidableEq

def RotationStats.update (stats : RotationStats) (trigger : RotationTrigger) : RotationStats :=
  let stats := { stats with totalRotations := stats.totalRotations + 1 }
  match trigger with
  | .size => { stats with sizeRotations := stats.sizeRotations + 1 }
  | .time => { stats with timeRotations := stats.timeRotations + 1 }
  | .count => { stats with countRotations := stats.countRotations + 1 }
  | .manual => { stats with manualRotations := stats.manualRotations + 1 }
  | .diskSpace => { stats with diskSpaceRotations := stats.diskSpaceRotations + 1 }
  | .shutdown => { stats with shutdownRotations := stats.shutdownRotations + 1 }

/-- `RotationManager`, as far as its rotations use it. -/
structure RotationManager where
  activeSegment : Option SegmentHandle
  stats : RotationStats
  rotationInProgress : Bool
  deriving DecidableEq

namespace RotationManager

def new : RotationManager := { activeSegment := none, stats := {}, rotationInProgress := false }

variable (m : RotationManager)

def setActiveSegment (segment : SegmentHandle) : RotationManager :=
  { m with
    activeSegment := some segment
    stats := { m.stats with activeSegmentId := some segment.metadata.id } }

def getNextSegmentId : Nat :=
  match m.activeSegment with
  | some current => current.metadata.id + 1
  | none => 1

def sealCurrent : RotationManager :=
  match m.activeSegment with
  | some current =>
    { m with
      activeSegment := some current.sealSegment
      stats := { m.stats with segmentsSealed := m.stats.segmentsSealed + 1 } }
  | none => m

theorem activeSegment_sealCurrent :
    m.sealCurrent.activeSegment = m.activeSegment.map SegmentHandle.sealSegment := by
  obtain ⟨active, stats, busy⟩ := m
  cases active <;> rfl

theorem getNextSegmentId_sealCurrent : m.sealCurrent.getNextSegmentId = m.getNextSegmentId := by
  obtain ⟨active, stats, busy⟩ := m
  cases active <;> rfl

def performRotation (config : WalConfig) (fault : Option CreationFault)
    (m : RotationManager) (files : Directory) :
    Except WalError SegmentHandle × RotationManager × Directory :=
  let m := m.sealCurrent
  match SegmentHandle.create m.getNextSegmentId config.segmentSize config.useMmap fault files with
  | (.error e, files) => (.error e, m, files)
  | (.ok segment, files) =>
    let m := m.setActiveSegment segment
    (.ok segment,
      { m with stats := { m.stats with segmentsCreated := m.stats.segmentsCreated + 1 } },
      files)

/-- Seals the segment and opens the next one. -/
def rotateSegment (config : WalConfig) (trigger : RotationTrigger)
    (fault : Option CreationFault) (m : RotationManager) (files : Directory) :
    Except WalError SegmentHandle × RotationManager × Directory :=
  if m.rotationInProgress then
    (.error (.invalidOperation "Rotation already in progress"), m, files)
  else
    let (result, m, files) :=
      performRotation config fault { m with rotationInProgress := true } files
    (result, { m with rotationInProgress := false, stats := m.stats.update trigger }, files)

end RotationManager

/-! ### A log and its rotation manager -/

/-- An entry whose write returned `Ok`, and where it was written. -/
structure Acknowledged where
  name : String
  position : Nat
  entry : LogEntry

/-- `Wal` with the rotation manager, over the files of the directory.  The process is
`crashed` if the system has stopped it. -/
structure RotatingLog where
  config : WalConfig
  files : Directory
  writer : Option SegmentHandle
  manager : RotationManager
  acknowledged : List Acknowledged
  crashed : Bool

/-- A write or a rotation. -/
inductive LogEvent where
  | write (m : Submission)
  | rotate (trigger : RotationTrigger) (fault : Option CreationFault)

namespace RotatingLog

def ofWal (wal : Wal) : RotatingLog :=
  { config := wal.config, files := wal.files,
    writer := wal.activeSegment.map WalSegment.handle, manager := .new,
    acknowledged := [], crashed := false }

variable (t : RotatingLog)

def contents (name : String) : Bytes := (t.files.lookup name).getD []

def write (crc32 : Bytes → UInt32) (t : RotatingLog) (m : Submission) : RotatingLog :=
  match t.writer with
  | none => t
  | some h =>
    match h.writeEntry (t.contents h.path) (m.entry crc32) with
    | none => { t with crashed := true }
    | some (.error _, _, _) => t
    | some (.ok position, h', file) =>
      { t with
        writer := some h'
        files := t.files.insert h.path file
        acknowledged := t.acknowledged ++ [⟨h.path, position, m.entry crc32⟩] }

def rotate (trigger : RotationTrigger) (fault : Option CreationFault) : RotatingLog :=
  let (_, manager, files) := t.manager.rotateSegment t.config trigger fault t.files
  { t with manager, files }

def step (crc32 : Bytes → UInt32) (t : RotatingLog) (event : LogEvent) : RotatingLog :=
  if t.crashed then t
  else
    match event with
    | .write m => t.write crc32 m
    | .rotate trigger fault => t.rotate trigger fault

variable {crc32 : Bytes → UInt32}

theorem step_crashed {t : RotatingLog} (h : t.crashed = true)
    (event : LogEvent) : t.step crc32 event = t :=
  if_pos h

theorem step_write {t : RotatingLog} (h : t.crashed = false)
    (m : Submission) : t.step crc32 (.write m) = t.write crc32 m :=
  if_neg (by simp [h])

theorem step_rotate {t : RotatingLog} (h : t.crashed = false)
    (trigger : RotationTrigger) (fault : Option CreationFault) :
    t.step crc32 (.rotate trigger fault) = t.rotate trigger fault :=
  if_neg (by simp [h])

def nextPath : String := segmentPath t.manager.getNextSegmentId

end RotatingLog

theorem SegmentHandle.create_eq (config : WalConfig) (id : Nat) (fault : Option CreationFault)
    (files : Directory) :
    ∃ e contents,
      create id config.segmentSize config.useMmap fault files =
        (if creates config fault then
            .ok (WalSegment.create id config.segmentSize config.useMmap).handle
          else .error e,
          if truncates fault then files.insert (segmentPath id) contents else files) := by
  cases fault with
  | none => exact ⟨.shutdown, _, rfl⟩
  | some fault =>
    cases fault with
    | createDir | openFile => exact ⟨_, [], rfl⟩
    | setLen => exact ⟨_, _, rfl⟩
    | mapFile e =>
      refine ⟨.io s!"Failed to create memory map: {e}", List.replicate config.segmentSize 0, ?_⟩
      rw [create, creates, truncates]
      · cases config.useMmap && decide (config.segmentSize > 0) <;> rfl
      · intro _ h
        cases h
      · intro _ h
        cases h

namespace RotatingLog

theorem rotate_eq {t : RotatingLog} (hidle : t.manager.rotationInProgress = false)
    (trigger : RotationTrigger) (fault : Option CreationFault) :
    (t.rotate trigger fault).manager.rotationInProgress = false ∧
      ((t.rotate trigger fault).manager.activeSegment =
        if creates t.config fault then
          some (WalSegment.create t.manager.getNextSegmentId t.config.segmentSize
            t.config.useMmap).handle
        else t.manager.activeSegment.map SegmentHandle.sealSegment) ∧
      ∃ contents, (t.rotate trigger fault).files =
        if truncates fault then t.files.insert t.nextPath contents else t.files := by
  obtain ⟨e, contents, hcr⟩ := SegmentHandle.create_eq t.config t.manager.getNextSegmentId
    fault t.files
  rw [rotate, RotationManager.rotateSegment, if_neg (by simp [hidle]),
    RotationManager.performRotation]
  dsimp only
  rw [RotationManager.getNextSegmentId_sealCurrent, RotationManager.getNextSegmentId]
  rw [RotationManager.getNextSegmentId] at hcr
  dsimp only
  rw [hcr]
  cases creates t.config fault with
  | true => exact ⟨rfl, rfl, contents, rfl⟩
  | false => exact ⟨rfl, RotationManager.activeSegment_sealCurrent _, contents, rfl⟩

theorem contents_insert (t : RotatingLog) (name name' : String) (file : Bytes) :
    { t with files := t.files.insert name file }.contents name' =
      if name' = name then file else t.contents name' := by
  rw [contents, HashMap.lookup_insert_eq]
  split <;> rfl

end RotatingLog

/-! ### Without rotations -/

theorem SegmentHandle.writeEntry_cases {h : SegmentHandle} {file : Bytes} (entry : LogEntry)
    (hpos : h.writePosition ≤ file.length) :
    (∃ e, h.writeEntry file entry = some (.error e, h, file)) ∨
      h.writeEntry file entry = none ∨
      h.writeEntry file entry = some (.ok h.writePosition, h.advance entry,
        writeAt file h.writePosition entry.serialize) := by
  unfold SegmentHandle.writeEntry
  dsimp only
  split
  · exact .inl ⟨_, rfl⟩
  · split
    · exact .inl ⟨_, rfl⟩
    · split
      · split
        · exact .inr (.inr rfl)
        · exact .inr (.inl rfl)
      · rw [Nat.sub_eq_zero_of_le hpos, List.replicate_zero, List.append_nil]
        exact .inr (.inr rfl)

/-! ### Rotations -/

namespace RotatingLog

/-- The bytes of an acknowledged entry stand in the file to which they were written. -/
def Stands (t : RotatingLog) (a : Acknowledged) : Prop :=
  ((t.contents a.name).drop a.position).take a.entry.serialize.length = a.entry.serialize

/-- The name of the file that a rotation truncates, if it comes so far. -/
def truncated (t : RotatingLog) (fault : Option CreationFault) : Option String :=
  if t.crashed || t.manager.rotationInProgress then none
  else if truncates fault then some t.nextPath else none

/-- A rotation truncates no file in which an acknowledged entry stands, and afterwards the
active segment of the manager, if it has one, is not sealed. -/
def Safe (crc32 : Bytes → UInt32) (t : RotatingLog) : LogEvent → Prop
  | .write _ => True
  | .rotate trigger fault =>
    (∀ name, t.truncated fault = some name →
        ∀ a ∈ t.acknowledged, a.name = name → ¬ t.Stands a) ∧
      ∀ h, (t.step crc32 (.rotate trigger fault)).manager.activeSegment = some h →
        h.metadata.isSealed = false

/-- A rotation that opens the file of the first segment comes before the first write that
is acknowledged, and one of a manager that has a segment creates the next one. -/
def Orderly (t : RotatingLog) : LogEvent → Prop
  | .write _ => True
  | .rotate _ fault =>
    t.crashed = true ∨
      (t.manager.activeSegment = none ∧ (truncates fault = true → t.acknowledged = [])) ∨
      (t.manager.activeSegment ≠ none ∧ creates t.config fault = true)

/-- As long as all rotations were safe: the acknowledged entries stand in the first
segment, one behind the other, and the manager has no sealed segment. -/
structure Coherent (t : RotatingLog) : Prop where
  idle : t.manager.rotationInProgress = false
  active : ∀ h, t.manager.activeSegment = some h →
    h.metadata.isSealed = false ∧ 1 ≤ h.metadata.id
  writer : ∃ h, t.writer = some h ∧ h.metadata.id = 1 ∧
    h.writePosition ≤ (t.contents initialSegment).length ∧
    (t.acknowledged = [] → h.writePosition = 0) ∧
    ∀ a ∈ t.acknowledged, a.position + a.entry.serialize.length ≤ h.writePosition
  name : ∀ a ∈ t.acknowledged, a.name = initialSegment
  stands : ∀ a ∈ t.acknowledged, t.Stands a

variable {t : RotatingLog}

theorem nextPath_none (h : t.manager.activeSegment = none) : t.nextPath = initialSegment := by
  rw [nextPath, RotationManager.getNextSegmentId, h, segmentPath_one]

theorem nextPath_some (hcoherent : Coherent t) {h : SegmentHandle}
    (hact : t.manager.activeSegment = some h) : t.nextPath ≠ initialSegment := by
  have hid := (hcoherent.active h hact).2
  have hnext : t.nextPath = segmentPath (h.metadata.id + 1) := by
    rw [nextPath, RotationManager.getNextSegmentId, hact]
  rw [hnext]
  exact segmentPath_ne_initial (by omega)

def appended (t : RotatingLog) (w : SegmentHandle) (entry : LogEntry) : RotatingLog :=
  { t with
    writer := some (w.advance entry)
    files := AList.insert initialSegment
      (writeAt (t.contents initialSegment) w.writePosition entry.serialize) t.files
    acknowledged := t.acknowledged ++ [⟨initialSegment, w.writePosition, entry⟩] }

variable {w : SegmentHandle}

private theorem write_cases (crc32 : Bytes → UInt32) (hw : t.writer = some w)
    (hid : w.metadata.id = 1) (hpos : w.writePosition ≤ (t.contents initialSegment).length)
    (m : Submission) :
    t.write crc32 m = t ∨ t.write crc32 m = { t with crashed := true } ∨
      t.write crc32 m = t.appended w (m.entry crc32) := by
  have hpath : w.path = initialSegment := by
    rw [SegmentHandle.path, hid, segmentPath_one]
  rw [RotatingLog.write, hw]
  dsimp only
  rw [hpath]
  obtain ⟨e, hwrite⟩ | hwrite | hwrite := SegmentHandle.writeEntry_cases (m.entry crc32) hpos
  · rw [hwrite]
    exact .inl rfl
  · rw [hwrite, ← hw]
    exact .inr (.inl rfl)
  · rw [hwrite]
    exact .inr (.inr rfl)

private theorem contents_appended (t : RotatingLog) (w : SegmentHandle) (entry : LogEntry) :
    (t.appended w entry).contents initialSegment =
      writeAt (t.contents initialSegment) w.writePosition entry.serialize := by
  rw [contents, appended, AList.lookup_insert]
  rfl

namespace Coherent

variable {crc32 : Bytes → UInt32} {t : RotatingLog}

theorem ofWal {wal : Wal} (h : Wal.new config directory = .ok wal) : Coherent (.ofWal wal) := by
  unfold Wal.new at h
  split at h
  · cases h
  · cases h
    exact
      { idle := rfl
        active := fun h hact => by cases hact
        writer := ⟨_, rfl, rfl, Nat.zero_le _, fun _ => rfl, fun a ha => by cases ha⟩
        name := fun a ha => by cases ha
        stands := fun a ha => by cases ha }

variable (h : Coherent t)
include h

private theorem appended (hw : t.writer = some w) (entry : LogEntry) :
    Coherent (t.appended w entry) := by
  obtain ⟨w', hw', hid, hpos, -, hbef⟩ := h.writer
  obtain rfl : w = w' := Option.some.inj (hw.symm.trans hw')
  have hlen : w.writePosition + entry.serialize.length ≤
      (writeAt (t.contents initialSegment) w.writePosition entry.serialize).length := by
    simp only [writeAt, List.length_append, List.length_take, List.length_drop]
    omega
  refine ⟨h.idle, h.active, ⟨w.advance entry, rfl, ?_, ?_, ?_, ?_⟩, ?_, ?_⟩
  · rw [w.advance_id, hid]
  · rw [t.contents_appended, w.advance_writePosition]
    exact hlen
  · intro hnil
    exact absurd hnil (List.append_ne_nil_of_right_ne_nil _ (List.cons_ne_nil _ _))
  · intro a ha
    rw [w.advance_writePosition]
    rcases List.mem_append.mp ha with hold | hnew
    · exact Nat.le_trans (hbef a hold) (Nat.le_add_right _ _)
    · rw [List.mem_singleton.mp hnew]
  · intro a ha
    rcases List.mem_append.mp ha with hold | hnew
    · exact h.name a hold
    · rw [List.mem_singleton.mp hnew]
  · intro a ha
    rcases List.mem_append.mp ha with hold | hnew
    · have hstd := h.stands a hold
      rw [Stands, h.name a hold] at hstd ⊢
      rw [t.contents_appended, slice_writeAt (hbef a hold) hpos]
      exact hstd
    · rw [List.mem_singleton.mp hnew, Stands, t.contents_appended]
      exact slice_writeAt_self hpos

theorem write (m : Submission) : Coherent (t.write crc32 m) := by
  obtain ⟨w, hw, hid, hpos, -, -⟩ := h.writer
  obtain hsame | hcrash | happ := write_cases crc32 hw hid hpos m
  · rw [hsame]
    exact h
  · rw [hcrash]
    exact ⟨h.idle, h.active, h.writer, h.name, h.stands⟩
  · rw [happ]
    exact h.appended hw _

private theorem truncate {name : String} {contents : Bytes}
    (hname : name = initialSegment → t.acknowledged = []) {manager : RotationManager}
    (hidle : manager.rotationInProgress = false)
    (hact : ∀ h, manager.activeSegment = some h →
      h.metadata.isSealed = false ∧ 1 ≤ h.metadata.id) :
    Coherent { t with manager, files := t.files.insert name contents } := by
  obtain ⟨w, hw, hid, hpos, hfresh, hbef⟩ := h.writer
  have hconts : ({ t with manager, files := t.files.insert name contents }
      : RotatingLog).contents initialSegment =
        if initialSegment = name then contents else t.contents initialSegment :=
    t.contents_insert name initialSegment contents
  by_cases hfirst : name = initialSegment
  · have hnil := hname hfirst
    refine ⟨hidle, hact, ⟨w, hw, hid, ?_, hfresh, hbef⟩, h.name, ?_⟩
    · rw [hfresh hnil]
      exact Nat.zero_le _
    · intro a ha
      rw [hnil] at ha
      cases ha
  · rw [if_neg (Ne.symm hfirst)] at hconts
    refine ⟨hidle, hact, ⟨w, hw, hid, ?_, hfresh, hbef⟩, h.name, ?_⟩
    · rw [hconts]
      exact hpos
    · intro a ha
      have hstd := h.stands a ha
      rw [Stands, h.name a ha] at hstd ⊢
      rw [hconts]
      exact hstd

section

variable (hrun : t.crashed = false)
include hrun

private theorem truncated_eq (fault : Option CreationFault) :
    t.truncated fault = if truncates fault then some t.nextPath else none := by
  rw [truncated, hrun, h.idle]
  rfl

theorem safe_rotate_iff (trigger : RotationTrigger) (fault : Option CreationFault) :
    t.Safe crc32 (.rotate trigger fault) ↔
      (truncates fault = true → ∀ a ∈ t.acknowledged, a.name ≠ t.nextPath) ∧
        ∀ c, (t.rotate trigger fault).manager.activeSegment = some c →
          c.metadata.isSealed = false := by
  rw [Safe, step_rotate hrun, h.truncated_eq hrun]
  refine and_congr_left fun _ => ⟨fun hsafe hopens a ha hname => ?_, fun hsafe name hname a ha
    hfile _ => ?_⟩
  · exact hsafe t.nextPath (if_pos hopens) a ha hname (h.stands a ha)
  · cases hopens : truncates fault with
    | true =>
      rw [hopens, if_pos rfl] at hname
      exact hsafe hopens a ha (hfile.trans (Option.some.inj hname).symm)
    | false =>
      rw [hopens] at hname
      cases hname

private theorem safe_first_iff (hnone : t.manager.activeSegment = none) (trigger : RotationTrigger)
    (fault : Option CreationFault) :
    t.Safe crc32 (.rotate trigger fault) ↔
      (truncates fault = true → t.acknowledged = []) := by
  obtain ⟨-, hact, -⟩ := rotate_eq h.idle trigger fault
  have huns : ∀ c, (t.rotate trigger fault).manager.activeSegment = some c →
      c.metadata.isSealed = false := by
    intro c hc
    rw [hact, hnone] at hc
    cases hcreates : creates t.config fault with
    | true =>
      rw [hcreates, if_pos rfl] at hc
      rw [← Option.some.inj hc]
      rfl
    | false =>
      rw [hcreates] at hc
      cases hc
  rw [h.safe_rotate_iff hrun, nextPath_none hnone, and_iff_left huns]
  refine forall_congr' fun _ => ⟨fun hsafe => ?_, fun hnil a ha => ?_⟩
  · exact List.eq_nil_iff_forall_not_mem.mpr fun a ha => hsafe a ha (h.name a ha)
  · rw [hnil] at ha
    cases ha

private theorem safe_next_iff {c : SegmentHandle} (hsome : t.manager.activeSegment = some c)
    (trigger : RotationTrigger) (fault : Option CreationFault) :
    t.Safe crc32 (.rotate trigger fault) ↔ creates t.config fault = true := by
  obtain ⟨-, hact, -⟩ := rotate_eq h.idle trigger fault
  have hoth : ∀ a ∈ t.acknowledged, a.name ≠ t.nextPath := by
    intro a ha
    rw [h.name a ha]
    exact (nextPath_some h hsome).symm
  rw [h.safe_rotate_iff hrun, and_iff_right fun _ => hoth, hact, hsome]
  cases creates t.config fault with
  | true =>
    refine iff_of_true (fun c hc => ?_) rfl
    rw [if_pos rfl] at hc
    rw [← Option.some.inj hc]
    rfl
  | false =>
    refine iff_of_false (fun hsafe => ?_) Bool.false_ne_true
    cases hsafe c.sealSegment rfl

end

private theorem safe_iff (event : LogEvent) : t.Safe crc32 event ↔ t.Orderly event := by
  cases event with
  | write => exact Iff.rfl
  | rotate =>
    cases hcrashed : t.crashed with
    | true =>
      refine iff_of_true ⟨fun name hname => ?_, fun c hc => ?_⟩ (.inl hcrashed)
      · rw [truncated, hcrashed] at hname
        cases hname
      · rw [step_crashed hcrashed] at hc
        exact (h.active c hc).1
    | false =>
      cases hact : t.manager.activeSegment with
      | none =>
        rw [h.safe_first_iff hcrashed hact, Orderly, hcrashed, hact]
        simp
      | some =>
        rw [h.safe_next_iff hcrashed hact, Orderly, hcrashed, hact]
        simp

private theorem rotate (hrun : t.crashed = false) {trigger : RotationTrigger}
    {fault : Option CreationFault} (hsafe : t.Safe crc32 (.rotate trigger fault)) :
    Coherent (t.rotate trigger fault) := by
  obtain ⟨hoth, huns⟩ := (h.safe_rotate_iff hrun trigger fault).mp hsafe
  obtain ⟨hidle, hact, contents, hfiles⟩ := rotate_eq h.idle trigger fault
  have hid : ∀ c, (t.rotate trigger fault).manager.activeSegment = some c →
      c.metadata.isSealed = false ∧ 1 ≤ c.metadata.id := by
    intro c hc
    refine ⟨huns c hc, ?_⟩
    rw [hact] at hc
    split at hc
    · rw [← Option.some.inj hc]
      show 1 ≤ t.manager.getNextSegmentId
      rw [RotationManager.getNextSegmentId]
      split <;> omega
    · obtain ⟨c', hc', rfl⟩ := Option.map_eq_some_iff.mp hc
      exact (h.active c' hc').2
  have hlog : t.rotate trigger fault =
      { t with
        manager := (t.rotate trigger fault).manager
        files := (t.rotate trigger fault).files } := rfl
  rw [hlog, hfiles]
  cases hopens : truncates fault with
  | true =>
    refine h.truncate (fun hname => ?_) hidle hid
    refine List.eq_nil_iff_forall_not_mem.mpr fun a ha => ?_
    exact hoth hopens a ha ((h.name a ha).trans hname.symm)
  | false => exact ⟨hidle, hid, h.writer, h.name, h.stands⟩

private theorem step {event : LogEvent} (hsafe : t.Safe crc32 event) : Coherent (t.step crc32 event)
    := by
  cases hcrashed : t.crashed with
  | true =>
    rw [step_crashed hcrashed]
    exact h
  | false =>
    cases event with
    | write m =>
      rw [step_write hcrashed]
      exact h.write m
    | rotate =>
      rw [step_rotate hcrashed]
      exact h.rotate hcrashed hsafe

end Coherent

theorem Coherent.eachStep_iff (h : Coherent t) (crc32 : Bytes → UInt32) (events : List LogEvent) :
    EachStep (RotatingLog.step crc32) (Safe crc32) t events ↔
      EachStep (RotatingLog.step crc32) Orderly t events :=
  eachStep_congr h (fun _ event h => h.safe_iff event) (fun _ _ h hsafe => h.step hsafe)

end RotatingLog

/-- On a new log, along any writes and rotations and with any faults of the creation of
segments, no rotation truncates acknowledged entries or leaves the manager with a sealed
segment exactly when every rotation that opens the first segment comes before the first
acknowledged write, and every later one creates its segment. -/
theorem rotation_safe_iff (crc32 : Bytes → UInt32) (config : WalConfig) (directory : Directory)
    (wal : Wal) (hwal : Wal.new config directory = .ok wal) (events : List LogEvent) :
    EachStep (RotatingLog.step crc32) (RotatingLog.Safe crc32) (.ofWal wal) events ↔
      EachStep (RotatingLog.step crc32) RotatingLog.Orderly (.ofWal wal) events :=
  (RotatingLog.Coherent.ofWal hwal).eachStep_iff crc32 events

theorem rotation_safe_sample :
    ∃ wal, Wal.new sampleConfig ∅ = .ok wal ∧
      (EachStep (RotatingLog.step fun _ => 0) (RotatingLog.Safe fun _ => 0) (.ofWal wal)
          [.rotate .manual none, .write sampleSubmission, .rotate .size none] ↔
        EachStep (RotatingLog.step fun _ => 0) RotatingLog.Orderly (.ofWal wal)
          [.rotate .manual none, .write sampleSubmission, .rotate .size none]) :=
  ⟨_, rfl, rotation_safe_iff (fun _ => 0) sampleConfig ∅ _ rfl
    [.rotate .manual none, .write sampleSubmission, .rotate .size none]⟩

/-- The first rotation after an acknowledged write truncates it. -/
theorem rotation_not_safe :
    ¬ ∀ (crc32 : Bytes → UInt32) (config : WalConfig) (directory : Directory) (wal : Wal),
      Wal.new config directory = .ok wal → ∀ events : List LogEvent,
        EachStep (RotatingLog.step crc32) (RotatingLog.Safe crc32) (.ofWal wal) events := by
  intro hsafe
  obtain ⟨wal, hwal, hne, hnone, hrun⟩ : ∃ wal, Wal.new sampleConfig ∅ = .ok wal ∧
      ((RotatingLog.ofWal wal).step (fun _ => 0) (.write sampleSubmission)).acknowledged ≠ [] ∧
      ((RotatingLog.ofWal wal).step (fun _ => 0)
        (.write sampleSubmission)).manager.activeSegment = none ∧
      ((RotatingLog.ofWal wal).step (fun _ => 0) (.write sampleSubmission)).crashed = false :=
    ⟨_, rfl, by decide, by decide, by decide⟩
  have hord := ((RotatingLog.Coherent.ofWal hwal).eachStep_iff _ _).mp
    (hsafe (fun _ => 0) sampleConfig ∅ wal hwal [.write sampleSubmission, .rotate .manual none])
  obtain ⟨-, hrest⟩ := eachStep_cons.mp hord
  obtain ⟨hrotation, -⟩ := eachStep_cons.mp hrest
  obtain hcrashed | ⟨-, hfirst⟩ | ⟨hsome, -⟩ := hrotation
  · cases hrun.symm.trans hcrashed
  · exact hne (hfirst rfl)
  · exact hsome hnone

end Kaelix.Storage.Wal
