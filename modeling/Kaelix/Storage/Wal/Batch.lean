import Kaelix.Storage.Wal.Entry
import Kaelix.Lib.Run

/-!
# Batching of log entries

`BatchCoordinator` of `wal/batch.rs`: entries are collected in the current batch, which is moved
to a queue when it is full, on a flush, or by a periodic task, and `next_batch` takes batches from
the queue.

Each call is one step.  A call of `next_batch` on an empty queue waits, so it is no step.  The
permits of `add_entry` are returned when it ends, and the averages and times of the metrics are
left out.
-/

namespace Kaelix.Storage.Wal

open Lib

structure BatchResult where
  batchSize : Nat
  memoryUsed : Nat
  startSequence : UInt64
  endSequence : UInt64
  deriving DecidableEq

structure BatchMetrics where
  totalBatches : Nat := 0
  totalEntries : Nat := 0
  maxBatchSize : Nat := 0
  minBatchSize : Nat := 0
  totalMemoryUsed : Nat := 0
  deriving DecidableEq

/-- `BatchCoordinator`; `flushers` counts the periodic tasks that wait for a tick. -/
structure BatchCoordinator where
  maxBatchSize : Nat
  currentBatch : List LogEntry
  queue : List (List LogEntry)
  isShutdown : Bool
  flushers : Nat
  metrics : BatchMetrics

namespace BatchCoordinator

def new (maxBatchSize : Nat) : BatchCoordinator :=
  { maxBatchSize, currentBatch := [], queue := [], isShutdown := false, flushers := 0,
    metrics := {} }

def recordFlush (m : BatchMetrics) (batchSize memoryUsed : Nat) : BatchMetrics :=
  { totalBatches := m.totalBatches + 1
    totalEntries := m.totalEntries + batchSize
    maxBatchSize := if batchSize > m.maxBatchSize then batchSize else m.maxBatchSize
    minBatchSize :=
      if batchSize < m.minBatchSize ∨ m.minBatchSize = 0 then batchSize
      else m.minBatchSize
    totalMemoryUsed := m.totalMemoryUsed + memoryUsed }

variable (c : BatchCoordinator)

/-- The batch goes to the queue. -/
def flushBatch : Option BatchResult × BatchCoordinator :=
  if c.isShutdown then (none, c)
  else if c.currentBatch.isEmpty then (none, c)
  else
    let batch := c.currentBatch
    let batchSize := batch.length
    let memoryUsed := (batch.map LogEntry.serializedSize).sum
    (some
      { batchSize, memoryUsed
        startSequence := (batch.head?.map LogEntry.sequenceNumber).getD 0
        endSequence := (batch.getLast?.map LogEntry.sequenceNumber).getD 0 },
      { c with
        currentBatch := []
        queue := c.queue ++ [batch]
        metrics := recordFlush c.metrics batchSize memoryUsed })

def addEntry (entry : LogEntry) : Except WalError BatchCoordinator :=
  if c.isShutdown then .error .shutdown
  else
    let c := { c with currentBatch := c.currentBatch ++ [entry] }
    if c.currentBatch.length ≥ c.maxBatchSize then .ok c.flushBatch.2 else .ok c

/-- `BatchCoordinator::next_batch`; `none` while it waits for a batch. -/
def nextBatch : Option (Option (List LogEntry) × BatchCoordinator) :=
  if c.isShutdown then some (none, c)
  else
    match c.queue with
    | [] => none
    | batch :: queue => some (some batch, { c with queue })

/-- `BatchCoordinator::start_periodic_flush`: the task waits for its first tick. -/
def startPeriodicFlush : BatchCoordinator :=
  if c.isShutdown then c else { c with flushers := c.flushers + 1 }

/-- A tick of a periodic task.  The task looks at the shutdown flag after the tick, before
it waits for the next one. -/
def tick : Option BatchCoordinator :=
  if c.flushers = 0 then none
  else
    let c :=
      if c.currentBatch.isEmpty then c
      else
        { c with
          currentBatch := []
          queue := c.queue ++ [c.currentBatch]
          metrics := { c.metrics with
            totalBatches := c.metrics.totalBatches + 1
            totalEntries := c.metrics.totalEntries + c.currentBatch.length } }
    some { c with flushers := if c.isShutdown then c.flushers - 1 else c.flushers }

def shutdown : BatchCoordinator :=
  ({ c with isShutdown := true } : BatchCoordinator).flushBatch.2

end BatchCoordinator

/-- A coordinator, the entries that `add_entry` accepted, and the batches that
`next_batch` returned. -/
structure Batching where
  coordinator : BatchCoordinator
  accepted : List LogEntry
  returned : List (List LogEntry)

/-- What can happen to the batcher. -/
inductive BatchEvent where
  | addEntry (entry : LogEntry)
  | flushBatch
  | nextBatch
  | startPeriodicFlush
  | tick
  | shutdown

namespace Batching

def new (maxBatchSize : Nat) : Batching :=
  { coordinator := .new maxBatchSize, accepted := [], returned := [] }

def step (s : Batching) : BatchEvent → Option Batching
  | .addEntry entry =>
    match s.coordinator.addEntry entry with
    | .ok coordinator => some { s with coordinator, accepted := s.accepted ++ [entry] }
    | .error _ => some s
  | .flushBatch => some { s with coordinator := s.coordinator.flushBatch.2 }
  | .nextBatch =>
    s.coordinator.nextBatch.map fun r =>
      { s with coordinator := r.2, returned := s.returned ++ r.1.toList }
  | .startPeriodicFlush => some { s with coordinator := s.coordinator.startPeriodicFlush }
  | .tick => s.coordinator.tick.map fun coordinator => { s with coordinator }
  | .shutdown => some { s with coordinator := s.coordinator.shutdown }

end Batching

/-! ### Nothing is lost -/

namespace BatchCoordinator

/-- The entries that no call has returned yet, oldest first. -/
def pending (c : BatchCoordinator) : List LogEntry := c.queue.flatten ++ c.currentBatch

theorem pending_flushBatch (c : BatchCoordinator) : c.flushBatch.2.pending = c.pending := by
  unfold flushBatch
  split
  · rfl
  · split
    · rfl
    · simp [pending]

variable {c c' : BatchCoordinator}

theorem pending_addEntry {entry : LogEntry}
    (h : c.addEntry entry = .ok c') : c'.pending = c.pending ++ [entry] := by
  unfold addEntry at h
  split at h
  · cases h
  · dsimp only at h
    split at h
    · cases h
      rw [pending_flushBatch]
      exact (List.append_assoc ..).symm
    · cases h
      exact (List.append_assoc ..).symm

private theorem pending_nextBatch {batch : Option (List LogEntry)}
    (h : c.nextBatch = some (batch, c')) :
    batch.toList.flatten ++ c'.pending = c.pending := by
  unfold nextBatch at h
  split at h
  · cases h
    rfl
  · split at h
    · cases h
    · next queue hqueue =>
        cases h
        simp [pending, hqueue]

private theorem pending_tick (h : c.tick = some c') : c'.pending = c.pending := by
  unfold tick at h
  split at h
  · cases h
  · cases h
    dsimp only
    split
    · rfl
    · simp [pending]

private theorem pending_startPeriodicFlush (c : BatchCoordinator) :
    c.startPeriodicFlush.pending = c.pending := by
  unfold startPeriodicFlush
  split <;> rfl

private theorem pending_shutdown (c : BatchCoordinator) : c.shutdown.pending = c.pending :=
  pending_flushBatch _

end BatchCoordinator

namespace Batching

variable (s : Batching)

/-- The returned batches, the queued batches and the current batch are the accepted
entries, in order. -/
def Conserved : Prop := s.returned.flatten ++ s.coordinator.pending = s.accepted

variable {event : BatchEvent}

theorem Conserved.step {s s' : Batching} (h : s.Conserved) (hstep : s.step event = some s') :
    s'.Conserved := by
  cases event with
  | addEntry entry =>
    unfold Batching.step at hstep
    dsimp only at hstep
    split at hstep
    · next c hc =>
        cases hstep
        show _ ++ c.pending = s.accepted ++ [entry]
        rw [BatchCoordinator.pending_addEntry hc, ← List.append_assoc]
        exact congrArg (· ++ [entry]) h
    · cases hstep
      exact h
  | flushBatch =>
    cases hstep
    show _ ++ s.coordinator.flushBatch.2.pending = _
    rw [BatchCoordinator.pending_flushBatch]
    exact h
  | nextBatch =>
    obtain ⟨⟨batch, c⟩, hnext, rfl⟩ := Option.map_eq_some_iff.mp hstep
    show (s.returned ++ batch.toList).flatten ++ c.pending = _
    rw [List.flatten_append, List.append_assoc, BatchCoordinator.pending_nextBatch hnext]
    exact h
  | startPeriodicFlush =>
    cases hstep
    show _ ++ s.coordinator.startPeriodicFlush.pending = _
    rw [BatchCoordinator.pending_startPeriodicFlush]
    exact h
  | tick =>
    obtain ⟨c, htick, rfl⟩ := Option.map_eq_some_iff.mp hstep
    show _ ++ c.pending = _
    rw [BatchCoordinator.pending_tick htick]
    exact h
  | shutdown =>
    cases hstep
    show _ ++ s.coordinator.shutdown.pending = _
    rw [BatchCoordinator.pending_shutdown]
    exact h

theorem conserved {maxBatchSize : Nat} {events : List BatchEvent} {s : Batching}
    (h : exec Batching.step (.new maxBatchSize) events = some s) : s.Conserved := by
  have hnew : (Batching.new maxBatchSize).Conserved := rfl
  exact exec_invariant (fun _ _ _ hs hstep => hs.step hstep) hnew h

/-! ### Shutdown -/

def shutdown : Batching := { s with coordinator := s.coordinator.shutdown }

/-- There are further steps after which every accepted entry has been returned. -/
def Obtainable : Prop :=
  ∃ events s', exec Batching.step s events = some s' ∧ s'.returned.flatten = s'.accepted

/-- What a coordinator that is shut down has accepted and returned stays as it is. -/
structure Stopped (accepted : List LogEntry) (returned : List (List LogEntry))
    (s : Batching) : Prop where
  flag : s.coordinator.isShutdown = true
  same : s.accepted = accepted ∧ s.returned = returned

theorem Stopped.step {accepted : List LogEntry} {returned : List (List LogEntry)}
    {s s' : Batching} (h : Stopped accepted returned s) (hstep : s.step event = some s') :
    Stopped accepted returned s' := by
  have hflag := h.flag
  cases event with
  | addEntry =>
    simp only [Batching.step, BatchCoordinator.addEntry, hflag, if_true] at hstep
    cases hstep
    exact h
  | flushBatch =>
    cases hstep
    exact ⟨by simp [BatchCoordinator.flushBatch, hflag], h.same⟩
  | nextBatch =>
    simp only [Batching.step, BatchCoordinator.nextBatch, hflag, if_true] at hstep
    cases hstep
    exact ⟨hflag, h.same.1, by simpa using h.same.2⟩
  | startPeriodicFlush =>
    cases hstep
    exact ⟨by simp [BatchCoordinator.startPeriodicFlush, hflag], h.same⟩
  | tick =>
    obtain ⟨c, htick, rfl⟩ := Option.map_eq_some_iff.mp hstep
    refine ⟨?_, h.same⟩
    unfold BatchCoordinator.tick at htick
    split at htick
    · cases htick
    · cases htick
      dsimp only
      split <;> exact hflag
  | shutdown =>
    cases hstep
    exact ⟨by simp [BatchCoordinator.shutdown, BatchCoordinator.flushBatch], h.same⟩

private theorem stopped_shutdown : Stopped s.accepted s.returned s.shutdown :=
  ⟨by simp [shutdown, BatchCoordinator.shutdown, BatchCoordinator.flushBatch], rfl, rfl⟩

theorem obtainable_shutdown_iff {s : Batching} (h : s.Conserved) :
    s.shutdown.Obtainable ↔ s.coordinator.pending = [] := by
  have hlen : s.returned.flatten = s.accepted ↔ s.coordinator.pending = [] := by
    rw [← h]
    exact List.self_eq_append_right
  constructor
  · rintro ⟨events, s', hexec, hall⟩
    have hstopped : Stopped s.accepted s.returned s' :=
      exec_invariant (fun _ _ _ hs hstep => hs.step hstep) (stopped_shutdown s) hexec
    rw [hstopped.same.1, hstopped.same.2] at hall
    exact hlen.mp hall
  · intro hpend
    exact ⟨[], s.shutdown, rfl, hlen.mpr hpend⟩

end Batching

/-- In every run the returned batches, the queued batches and the current batch are the
accepted entries in order; and when `shutdown` is called, all accepted entries have been
or can be obtained exactly when no entry is queued or in the current batch. -/
theorem batching_iff (maxBatchSize : Nat) (events : List BatchEvent) (s : Batching)
    (h : exec Batching.step (.new maxBatchSize) events = some s) :
    s.returned.flatten ++ s.coordinator.queue.flatten ++ s.coordinator.currentBatch = s.accepted ∧
      (s.shutdown.Obtainable ↔
        s.coordinator.queue.flatten = [] ∧ s.coordinator.currentBatch = []) := by
  have hconserved := Batching.conserved h
  constructor
  · rw [List.append_assoc]
    exact hconserved
  · rw [Batching.obtainable_shutdown_iff hconserved, BatchCoordinator.pending,
      List.append_eq_nil_iff]

def batchEntry (sequenceNumber : UInt64) : LogEntry :=
  .new (fun _ => 0) sequenceNumber 12345 [] LogEntry.length_nil_lt

def sampleBatchEvents : List BatchEvent :=
  [.addEntry (batchEntry 1), .addEntry (batchEntry 2), .nextBatch]

theorem batching_sample :
    ∃ s, exec Batching.step (.new 2) sampleBatchEvents = some s ∧
      s.returned.flatten ++ s.coordinator.queue.flatten ++ s.coordinator.currentBatch =
        s.accepted ∧
      (s.shutdown.Obtainable ↔
        s.coordinator.queue.flatten = [] ∧ s.coordinator.currentBatch = []) :=
  ⟨_, rfl, batching_iff 2 sampleBatchEvents _ rfl⟩

/-- An entry in the current batch is lost by `shutdown`. -/
theorem batching_not_obtainable :
    ¬ ∀ (maxBatchSize : Nat) (events : List BatchEvent) (s : Batching),
      exec Batching.step (.new maxBatchSize) events = some s →
        s.returned.flatten ++ s.coordinator.queue.flatten ++ s.coordinator.currentBatch =
            s.accepted ∧
          s.shutdown.Obtainable := by
  intro hobtainable
  obtain ⟨s, hs, hbatch⟩ : ∃ s, exec Batching.step (.new 2) [.addEntry (batchEntry 1)] =
      some s ∧ s.coordinator.pending = [batchEntry 1] := ⟨_, rfl, rfl⟩
  have hobtain := (hobtainable 2 [.addEntry (batchEntry 1)] s hs).2
  rw [Batching.obtainable_shutdown_iff (Batching.conserved hs), hbatch] at hobtain
  cases hobtain

end Kaelix.Storage.Wal
