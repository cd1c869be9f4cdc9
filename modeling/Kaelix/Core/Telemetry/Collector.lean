import Kaelix.Core.Telemetry.TimeSeries
import Kaelix.Lib.Guards
import Kaelix.Lib.HashMap

/-!
# The metrics collector

`MetricsCollector` of `telemetry/collector.rs` in one thread, with its locks: one for each metric,
one for the time of the last cleanup, and one for each shard of the `DashMap`, which holds the
shard's lock while it looks at it.  Where a guard is a variable of the code it is held to the end
of the variable's scope.

Each place that reads a clock has a reading of its own, and readings are arbitrary.  The
subtraction of the retention period from the time does not overflow.
-/

namespace Kaelix.Core.Telemetry

open Lib

/-- The locks the collector takes. -/
inductive Lock (K : Type) (n : Nat) where
  | lastCleanup
  | shard (i : Fin n)
  | metric (key : K)
  deriving DecidableEq

/-- Why a query stops that has all its locks: it panics, or it has not ended in time. -/
inductive QueryStop where
  | panic (p : Panic)
  | running

/-- The metrics, and when they were cleaned up. -/
structure MetricsCollector (K F : Type) where
  metrics : HashMap K (TimeSeriesMetric F)
  config : MetricsConfig
  lastCleanup : Int
  totalRecords : Nat
  cleanupOperations : Nat

structure QueryResult (K F : Type) where
  metrics : HashMap K (MetricData F)
  totalPoints : Nat

/-- The clock readings of a call. -/
structure Readings (K : Type) where
  /-- `SystemTime::now` in `record` and `record_batch`. -/
  timestamp : Int
  /-- `Instant::now` in `TimeSeriesMetric::new`, for each value of a batch. -/
  created : Nat → Int
  /-- `Instant::now` in `add_value`, for each value of a batch. -/
  updated : Nat → Int
  /-- `last_cleanup.elapsed()` in `cleanup_if_needed`. -/
  checked : Int
  /-- `SystemTime::now` in `cleanup`. -/
  cutoff : Int
  /-- `last_updated.elapsed()` in `cleanup`, for each metric. -/
  retained : K → Int
  /-- `Instant::now` at the end of `cleanup`. -/
  cleaned : Int

/-- The collector's calls. -/
inductive Call (K F : Type) where
  | record (readings : Readings K) (key : K) (value : F)
  | recordBatch (readings : Readings K) (values : List (K × F))
  | query (rounds : Nat) (keys : List K) (query : MetricsQuery)
  | cleanup (readings : Readings K)

def elapsed (now since : Int) : Nat := (now - since).toNat

abbrev LockedCall (K F : Type) (n : Nat) (α : Type) :=
  Locked (Lock K n) QueryStop (MetricsCollector K F) α

namespace MetricsCollector

def new {K F : Type} (config : MetricsConfig) (now : Int) : MetricsCollector K F :=
  { metrics := ∅, config, lastCleanup := now, totalRecords := 0, cleanupOperations := 0 }

section

variable {K F : Type} [DecidableEq K] {n : Nat} (ops : Arithmetic F) (shardOf : K → Fin n)

def updateMetric (key : K) (f : MetricsConfig → TimeSeriesMetric F → TimeSeriesMetric F)
    (s : MetricsCollector K F) : MetricsCollector K F :=
  match s.metrics.lookup key with
  | some metric => { s with metrics := s.metrics.insert key (f s.config metric) }
  | none => s

def shardKeys (i : Fin n) (s : MetricsCollector K F) : List K :=
  s.metrics.keys.filter (shardOf · = i)

/-- `MetricsCollector::get_or_create_metric`.  The metric that it returns is known by its key. -/
def getOrCreateMetric (key : K) (created : Int) : LockedCall K F n Unit :=
  .withGuard (.shard (shardOf key)) .write <|
    .modify fun s =>
      if key ∈ s.metrics then s
      else { s with metrics := s.metrics.insert key (.new ops created) }

section

variable (readings : Readings K)

def isOld (key : K) (s : MetricsCollector K F) : Bool :=
  match s.metrics.lookup key with
  | some metric => elapsed (readings.retained key) metric.lastUpdated > s.config.retentionPeriod
  | none => false

/-- The `retain` of `cleanup` at a metric: it reads the metric, and may then remove it. -/
def retainMetric (key : K) : LockedCall K F n Unit := do
  let old ← .withGuard (.metric key) .read do
    let s ← .get
    return isOld readings key s
  if old then .modify fun s => { s with metrics := s.metrics.erase key }

def retainMetrics : LockedCall K F n Unit :=
  .each (fun i => .withGuard (.shard i) .write do
    let s ← .get
    .each (retainMetric readings) (shardKeys shardOf i s))
    (List.finRange n)

def cleanupMetrics : LockedCall K F n Unit :=
  .each (fun i => .withGuard (.shard i) .read do
    let s ← .get
    .each (fun key => .withGuard (.metric key) .write <|
        .modify <| updateMetric key fun config metric =>
          metric.cleanupOldValues (readings.cutoff - config.retentionPeriod))
      (shardKeys shardOf i s))
    (List.finRange n)

/-- Drops old metrics, then old values. -/
def cleanup : LockedCall K F n Unit := do
  retainMetrics shardOf readings
  cleanupMetrics shardOf readings
  .modify fun s => { s with cleanupOperations := s.cleanupOperations + 1 }
  .withGuard .lastCleanup .write <| .modify fun s => { s with lastCleanup := readings.cleaned }

def cleanupDue (s : MetricsCollector K F) : Bool :=
  elapsed readings.checked s.lastCleanup > s.config.cleanupInterval

/-- `MetricsCollector::cleanup_if_needed`, which drops its guard before the cleanup. -/
def cleanupIfNeeded : LockedCall K F n Unit := do
  let due ← .withGuard .lastCleanup .read do
    let s ← .get
    return cleanupDue readings s
  if due then cleanup shardOf readings

def record (key : K) (value : F) : LockedCall K F n Unit := do
  getOrCreateMetric ops shardOf key (readings.created 0)
  -- `metric_guard` is in scope to the end
  .withGuard (.metric key) .write do
    .modify <| updateMetric key fun config metric =>
      metric.addValue ops value readings.timestamp config (readings.updated 0)
    .modify fun s => { s with totalRecords := s.totalRecords + 1 }
    cleanupIfNeeded shardOf readings

def recordBatch (values : List (K × F)) : LockedCall K F n Unit := do
  .each (fun ((key, value), i) => do
    getOrCreateMetric ops shardOf key (readings.created i)
    .withGuard (.metric key) .write <|
      .modify <| updateMetric key fun config metric =>
        metric.addValue ops value readings.timestamp config (readings.updated i))
    values.zipIdx
  .modify fun s => { s with totalRecords := s.totalRecords + 1 }
  cleanupIfNeeded shardOf readings

end

/-- The loop of `MetricsCollector::query` over the keys that are left. -/
def queryKeys (rounds : Nat) (query : MetricsQuery) (result : QueryResult K F) :
    List K → LockedCall K F n (QueryResult K F)
  | [] => return result
  | key :: keys => do
    let result ← .withGuard (.shard (shardOf key)) .read do
      let s ← .get
      match s.metrics.lookup key with
      | some metric =>
        .withGuard (.metric key) .read <|
          match metric.query ops rounds query with
          | some (.ok data) =>
            return { metrics := result.metrics.insert key data
                     totalPoints := result.totalPoints + (data.rawValues.map List.length).getD 0 }
          | some (.error p) => .stop (.panic p)
          | none => .stop .running
      | none => return result
    queryKeys rounds query result keys

/-- `MetricsCollector::query`, with windows of at most a number of rounds. -/
def query (rounds : Nat) (keys : List K) (query : MetricsQuery) :
    LockedCall K F n (QueryResult K F) :=
  queryKeys ops shardOf rounds query { metrics := ∅, totalPoints := 0 } keys

def run : Call K F → LockedCall K F n Unit
  | .record readings key value => record ops shardOf readings key value
  | .recordBatch readings values => recordBatch ops shardOf readings values
  | .query rounds keys q => do
    let _ ← query ops shardOf rounds keys q
  | .cleanup readings => cleanup shardOf readings

end

end MetricsCollector

end Kaelix.Core.Telemetry
