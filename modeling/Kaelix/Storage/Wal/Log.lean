import Kaelix.Storage.Wal.Segment
import Kaelix.Lib.HashMap

/-!
# The write-ahead log

`Wal` of `wal/mod.rs` over the files of its directory: it is created, written to, shut down, and
created again with the same configuration.

A message is given by its serialized bytes.  `Wal::write` never rotates the segment, so `1.wal` is
the only file it writes to.
-/

set_option linter.dupNamespace false

namespace Kaelix.Storage.Wal

open Lib Lib.BigEndian

structure WalConfig where
  segmentSize : Nat
  useMmap : Bool
  bufferSize : Nat
  maxBatchSize : Nat
  asyncThreads : Nat
  compressionLevel : Nat
  deriving DecidableEq

/-- `WalConfig::validate`; the directory exists or can be created. -/
def WalConfig.validate (c : WalConfig) : Except String Unit :=
  if c.segmentSize = 0 then .error "Segment size must be greater than 0"
  else if c.bufferSize = 0 then .error "Buffer size must be greater than 0"
  else if c.maxBatchSize = 0 then .error "Max batch size must be greater than 0"
  else if c.asyncThreads = 0 then .error "Async threads must be greater than 0"
  else if c.compressionLevel > 9 then .error "Compression level must be between 0 and 9"
  else .ok ()

def WalConfig.default : WalConfig :=
  { segmentSize := 64 * 1024 * 1024, useMmap := true, bufferSize := 8 * 1024,
    maxBatchSize := 1000, asyncThreads := 2, compressionLevel := 1 }

/-- The files by name. -/
abbrev Directory := HashMap String Bytes

/-- The fields of `WalStats` that `Wal` updates while it writes. -/
structure WalStats where
  entriesWritten : Nat := 0
  bytesWritten : Nat := 0
  deriving DecidableEq

/-- The name of the segment that `Wal::new` creates. -/
def initialSegment : String := "1.wal"

/-- `Wal`, with the files that were in its directory when it was created.  The active
segment, if there is one, is the file `1.wal`. -/
structure Wal where
  config : WalConfig
  directory : Directory
  activeSegment : Option WalSegment
  stats : WalStats
  shutdownFlag : Bool

namespace Wal

def files (w : Wal) : Directory :=
  match w.activeSegment with
  | none => w.directory
  | some segment => w.directory.insert initialSegment segment.file

def new (config : WalConfig) (directory : Directory) : Except WalError Wal :=
  match config.validate with
  | .error message => .error (.configuration message)
  | .ok _ => .ok
    { config, directory
      activeSegment := some (.create 1 config.segmentSize config.useMmap)
      stats := {}
      shutdownFlag := false }

def entry (crc32 : Bytes → UInt32) (now : UInt64) (message : Bytes)
    (h : message.length < 2 ^ 64) : LogEntry :=
  .new crc32 1 now message h

/-- `Wal::write` at a time: the position, and the log afterwards. -/
def write (crc32 : Bytes → UInt32) (w : Wal) (now : UInt64) (message : Bytes)
    (h : message.length < 2 ^ 64) : Except WalError (Nat × Wal) :=
  if w.shutdownFlag then .error .shutdown
  else
    match w.activeSegment with
    | none => .error (.invalidOperation "No active segment")
    | some segment => do
      let (position, segment) ← segment.writeEntry (entry crc32 now message h)
      .ok (position,
        { w with
          activeSegment := some segment
          stats :=
            { entriesWritten := w.stats.entriesWritten + 1
              bytesWritten :=
                w.stats.bytesWritten + (entry crc32 now message h).serializedSize } })

def shutdown (w : Wal) : Wal :=
  { w with
    shutdownFlag := true
    activeSegment := w.activeSegment.map WalSegment.sealSegment }

end Wal

/-- The log's calls. -/
inductive WalCall where
  | write (now : UInt64) (message : Bytes) (h : message.length < 2 ^ 64)
  | shutdown

/-- A log, and the entries it has acknowledged. -/
structure WalHistory where
  wal : Wal
  acknowledged : List LogEntry

namespace WalHistory

def call (crc32 : Bytes → UInt32) (r : WalHistory) : WalCall → WalHistory
  | .write now message h =>
    match r.wal.write crc32 now message h with
    | .ok (_, wal) =>
      { wal, acknowledged := r.acknowledged ++ [Wal.entry crc32 now message h] }
    | .error _ => r
  | .shutdown => { r with wal := r.wal.shutdown }

def run (crc32 : Bytes → UInt32) (wal : Wal) (calls : List WalCall) : WalHistory :=
  calls.foldl (call crc32) { wal, acknowledged := [] }

end WalHistory

/-- The bytes of an entry stand somewhere in a file of the directory. -/
def Present (files : Directory) (entry : LogEntry) : Prop :=
  ∃ name contents, files.lookup name = some contents ∧
    entry.serialize <:+: contents

/-- The entry stands in another file. -/
def PresentElsewhere (files : Directory) (entry : LogEntry) : Prop :=
  ∃ name contents, name ≠ initialSegment ∧ files.lookup name = some contents ∧
    entry.serialize <:+: contents

theorem Wal.lookup_files (w : Wal) {name : String} (h : name ≠ initialSegment) :
    w.files.lookup name = w.directory.lookup name := by
  unfold Wal.files
  split
  · rfl
  · rw [HashMap.lookup_insert_eq, if_neg h]

theorem Wal.write_directory {crc32 : Bytes → UInt32} {w w' : Wal} {now : UInt64}
    {message : Bytes} {h : message.length < 2 ^ 64} {position : Nat}
    (hw : w.write crc32 now message h = .ok (position, w')) : w'.directory = w.directory := by
  unfold Wal.write at hw
  split at hw
  · cases hw
  · split at hw
    · cases hw
    · simp only [bind, Except.bind] at hw
      split at hw
      · cases hw
      · cases hw
        rfl

theorem WalHistory.call_write (crc32 : Bytes → UInt32) (r : WalHistory) (now : UInt64)
    (message : Bytes) (h : message.length < 2 ^ 64) :
    r.call crc32 (.write now message h) = r ∨
      ∃ position wal, r.wal.write crc32 now message h = .ok (position, wal) ∧
        r.call crc32 (.write now message h) =
          { wal, acknowledged := r.acknowledged ++ [Wal.entry crc32 now message h] } := by
  unfold WalHistory.call
  dsimp only
  split
  · next position wal hw => exact .inr ⟨position, wal, hw, rfl⟩
  · exact .inl rfl

/-- What every history of calls keeps: the files that were there when the log was made,
and the sequence number of all entries. -/
structure Keeps (files : Directory) (r : WalHistory) : Prop where
  directory : r.wal.directory = files
  sequence : ∀ entry ∈ r.acknowledged, entry.sequenceNumber = 1

namespace Keeps

variable {directory : Directory} {r : WalHistory} {crc32 : Bytes → UInt32}

private theorem call (h : Keeps directory r) (c : WalCall) : Keeps directory (r.call crc32 c) := by
  cases c with
  | write now message hlen =>
    rcases WalHistory.call_write crc32 r now message hlen with hsame | ⟨position, wal, hw, hcall⟩
    · rw [hsame]
      exact h
    · rw [hcall]
      constructor
      · exact (Wal.write_directory hw).trans h.directory
      · intro entry hent
        rcases List.mem_append.mp hent with hold | hnew
        · exact h.sequence entry hold
        · rw [List.mem_singleton.mp hnew]
          rfl
  | shutdown => exact ⟨h.directory, h.sequence⟩

theorem run {wal : Wal} (h : wal.directory = directory) (calls : List WalCall) :
    Keeps directory (WalHistory.run crc32 wal calls) := by
  have hstart : Keeps directory { wal, acknowledged := [] } :=
    ⟨h, fun _ hent => absurd hent List.not_mem_nil⟩
  unfold WalHistory.run
  generalize ({ wal, acknowledged := [] } : WalHistory) = r at hstart
  induction calls generalizing r with
  | nil => exact hstart
  | cons c calls ih => exact ih (r.call crc32 c) (hstart.call c)

end Keeps

/-! ### Restart -/

private theorem not_infix_zeros {entry : LogEntry} (h : entry.sequenceNumber = 1) (n : Nat) :
    ¬ entry.serialize <:+: List.replicate n 0 := by
  intro hwin
  have hone : (1 : UInt8) ∈ u64.putLe entry.sequenceNumber := by
    rw [h]
    decide
  have hmem : (1 : UInt8) ∈ entry.serialize := by
    simp only [LogEntry.serialize, LogEntry.fixedPart, List.append_assoc]
    exact List.mem_append_left _ hone
  have hzero := List.eq_of_mem_replicate (hwin.subset hmem)
  cases hzero

variable {config : WalConfig} {directory : Directory}

theorem Wal.new_spec {w : Wal} (h : Wal.new config directory = .ok w) :
    config.validate = .ok () ∧ w.directory = directory ∧
      w.files.lookup initialSegment = some (List.replicate config.segmentSize 0) := by
  unfold Wal.new at h
  split at h
  · cases h
  · next hvalid =>
      cases h
      exact ⟨hvalid, rfl, AList.lookup_insert _⟩

private theorem present_new_iff {w : Wal} (hw : Wal.new config directory = .ok w) {entry : LogEntry}
    (hent : entry.sequenceNumber = 1) :
    Present w.files entry ↔ PresentElsewhere directory entry := by
  obtain ⟨-, rfl, hzeros⟩ := Wal.new_spec hw
  constructor
  · rintro ⟨name, contents, hget, hwin⟩
    by_cases hname : name = initialSegment
    · rw [hname, hzeros] at hget
      cases hget
      exact absurd hwin (not_infix_zeros hent _)
    · rw [w.lookup_files hname] at hget
      exact ⟨name, contents, hname, hget, hwin⟩
  · rintro ⟨name, contents, hname, hget, hwin⟩
    rw [← w.lookup_files hname] at hget
    exact ⟨name, contents, hget, hwin⟩

private theorem presentElsewhere_files_iff (w : Wal) (entry : LogEntry) :
    PresentElsewhere w.files entry ↔ PresentElsewhere w.directory entry := by
  unfold PresentElsewhere
  refine exists_congr fun name => exists_congr fun contents => ?_
  refine and_congr_right fun hname => ?_
  rw [w.lookup_files hname]

/-- A restart after some calls: the log is made again, and every acknowledged entry is
still in its directory. -/
def Survives (config : WalConfig) (r : WalHistory) : Prop :=
  ∃ restarted, Wal.new config r.wal.files = .ok restarted ∧
    ∀ entry ∈ r.acknowledged, Present restarted.files entry

theorem Wal.new_ok (h : config.validate = .ok ()) (files : Directory) :
    ∃ w, Wal.new config files = .ok w := by
  unfold Wal.new
  rw [h]
  exact ⟨_, rfl⟩

theorem survives_iff (hvalid : config.validate = .ok ()) {r : WalHistory} (h : Keeps directory r) :
    Survives config r ↔ ∀ entry ∈ r.acknowledged, PresentElsewhere directory entry := by
  obtain ⟨restarted, hrestart⟩ := Wal.new_ok hvalid r.wal.files
  have hpres : ∀ entry ∈ r.acknowledged,
      (Present restarted.files entry ↔ PresentElsewhere directory entry) := by
    intro entry hent
    rw [present_new_iff hrestart (h.sequence entry hent), presentElsewhere_files_iff,
      h.directory]
  constructor
  · rintro ⟨restarted', hrestart', hall⟩ entry hent
    obtain rfl : restarted = restarted' := Except.ok.inj (hrestart.symm.trans hrestart')
    exact (hpres entry hent).mp (hall entry hent)
  · intro hall
    exact ⟨restarted, hrestart, fun entry hent =>
      (hpres entry hent).mpr (hall entry hent)⟩

/-- Whatever calls were made on a log, creating it again succeeds, and it leaves the
bytes of the acknowledged entries in the directory exactly when they stood in another
file from the start: the first segment is truncated. -/
theorem wal_durability_iff (crc32 : Bytes → UInt32) (config : WalConfig) (directory : Directory)
    (wal : Wal) (hwal : Wal.new config directory = .ok wal) (calls : List WalCall) :
    Survives config (WalHistory.run crc32 wal calls) ↔
      ∀ entry ∈ (WalHistory.run crc32 wal calls).acknowledged,
        PresentElsewhere directory entry := by
  obtain ⟨hvalid, hdir, -⟩ := Wal.new_spec hwal
  exact survives_iff hvalid (Keeps.run hdir calls)

def sampleConfig : WalConfig := { WalConfig.default with segmentSize := 64 }

def sampleWalCalls : List WalCall := [.write 12345 [] LogEntry.length_nil_lt, .shutdown]

theorem wal_durability_sample :
    ∃ wal, Wal.new sampleConfig ∅ = .ok wal ∧
      (Survives sampleConfig (WalHistory.run (fun _ => 0) wal sampleWalCalls) ↔
        ∀ entry ∈ (WalHistory.run (fun _ => 0) wal sampleWalCalls).acknowledged,
          PresentElsewhere ∅ entry) :=
  ⟨_, rfl, wal_durability_iff (fun _ => 0) sampleConfig ∅ _ rfl sampleWalCalls⟩

/-- A message that was acknowledged before an orderly shutdown is lost by the restart. -/
theorem wal_not_durable :
    ¬ ∀ (crc32 : Bytes → UInt32) (config : WalConfig) (directory : Directory) (wal : Wal),
      Wal.new config directory = .ok wal → ∀ calls : List WalCall,
        Survives config (WalHistory.run crc32 wal calls) := by
  intro hdurable
  obtain ⟨wal, hwal, hack⟩ : ∃ wal, Wal.new sampleConfig ∅ = .ok wal ∧
      (WalHistory.run (fun _ => 0) wal sampleWalCalls).acknowledged = [sampleEntry] :=
    ⟨_, rfl, rfl⟩
  obtain ⟨hvalid, hdir, -⟩ := Wal.new_spec hwal
  have hsurvives := hdurable (fun _ => 0) sampleConfig ∅ wal hwal sampleWalCalls
  rw [survives_iff hvalid (Keeps.run hdir sampleWalCalls), hack] at hsurvives
  obtain ⟨name, contents, -, hget, -⟩ := hsurvives sampleEntry (List.mem_singleton_self _)
  cases hget

end Kaelix.Storage.Wal
