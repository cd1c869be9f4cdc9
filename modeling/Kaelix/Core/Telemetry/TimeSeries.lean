import Kaelix.Lib.Loop
import Kaelix.Lib.Overflow

/-!
# Time series of a metric

`TimeSeriesMetric` of `telemetry/collector.rs`: the values of one metric with their timestamps,
and the query that groups them into windows of equal length.

Floating-point arithmetic is a parameter.  Times are in nanoseconds, `SystemTime` since the
epoch, and they may be before it.  The window loop need not end, so it is run for a number of
rounds.  The counters do not overflow.
-/

namespace Kaelix.Core.Telemetry

open Lib

/-- The operations of `f64` in use. -/
structure Arithmetic (F : Type) where
  zero : F
  infinity : F
  negInfinity : F
  add : F → F → F
  div : F → F → F
  min : F → F → F
  max : F → F → F
  ofCount : Nat → F
  sum : List F → F

def Arithmetic.unit : Arithmetic Unit where
  zero := ()
  infinity := ()
  negInfinity := ()
  add _ _ := ()
  div _ _ := ()
  min _ _ := ()
  max _ _ := ()
  ofCount _ := ()
  sum _ := ()

def maxSystemTime : Int := (2 ^ 63 - 1) * 1000000000 + 999999999

def addDuration (time : Int) (duration : Nat) : Except Panic Int :=
  if maxSystemTime < time + duration then .error ⟨"overflow when adding duration to instant"⟩
  else .ok (time + duration)

structure TimestampedValue (F : Type) where
  value : F
  timestamp : Int
  deriving DecidableEq

structure AggregatedData (F : Type) where
  count : Nat
  sum : F
  min : F
  max : F
  average : F
  deriving DecidableEq

/-- The values of one stretch of time. -/
structure AggregationWindow (F : Type) where
  start : Int
  end_ : Int
  values : List F
  count : Nat
  sum : F
  min : F
  max : F
  deriving DecidableEq

/-- What a query asks for. -/
structure MetricsQuery where
  startTime : Option Int
  endTime : Option Int
  aggregationWindow : Option Nat
  includeRawValues : Bool
  deriving DecidableEq

structure MetricData (F : Type) where
  aggregated : AggregatedData F
  windows : List (AggregationWindow F)
  rawValues : Option (List (TimestampedValue F))
  deriving DecidableEq

structure MetricsConfig where
  retentionPeriod : Nat
  cleanupInterval : Nat
  maxValuesPerMetric : Nat
  deriving DecidableEq

/-- `TimeSeriesMetric`.  The type of the metric is left out, as nothing reads it. -/
structure TimeSeriesMetric (F : Type) where
  values : List (TimestampedValue F)
  aggregated : AggregatedData F
  lastUpdated : Int
  deriving DecidableEq

variable {F : Type} (ops : Arithmetic F)

def AggregatedData.default : AggregatedData F :=
  { count := 0, sum := ops.zero, min := ops.zero, max := ops.zero, average := ops.zero }

def MetricsQuery.includes (query : MetricsQuery) (v : TimestampedValue F) : Bool :=
  (match query.startTime with
    | some start => !(v.timestamp < start)
    | none => true) &&
  match query.endTime with
    | some end_ => !(v.timestamp > end_)
    | none => true

namespace TimeSeriesMetric

def new (now : Int) : TimeSeriesMetric F :=
  { values := [], aggregated := .default ops, lastUpdated := now }

/-- The loop at the end of `add_value`, which takes values from the front. -/
def popFront (maxValues : Nat) : List (TimestampedValue F) → List (TimestampedValue F)
  | [] => []
  | v :: values =>
    if maxValues < (v :: values).length then popFront maxValues values else v :: values

def updateAggregated (aggregated : AggregatedData F) (value : F) : AggregatedData F :=
  let count := aggregated.count + 1
  let sum := ops.add aggregated.sum value
  { count, sum
    min := if count = 1 then value else ops.min aggregated.min value
    max := if count = 1 then value else ops.max aggregated.max value
    average := ops.div sum (ops.ofCount count) }

variable (self : TimeSeriesMetric F)

/-- A value at the end, with the aggregates. -/
def addValue (value : F) (timestamp : Int) (config : MetricsConfig)
    (now : Int) : TimeSeriesMetric F :=
  { values := popFront config.maxValuesPerMetric (self.values ++ [{ value, timestamp }])
    aggregated := updateAggregated ops self.aggregated value
    lastUpdated := now }

def cleanupOldValues (cutoff : Int) : TimeSeriesMetric F :=
  { self with values := self.values.filter (·.timestamp ≥ cutoff) }

variable (values : List (TimestampedValue F))

def aggregateValues : AggregatedData F :=
  if values.isEmpty then .default ops
  else
    let sum := ops.sum (values.map (·.value))
    let count := values.length
    { count, sum
      min := (values.map (·.value)).foldl ops.min ops.infinity
      max := (values.map (·.value)).foldl ops.max ops.negInfinity
      average := ops.div sum (ops.ofCount count) }

/-- The window of the values from `currentTime` on and before `windowEnd`, if there are any. -/
def window? (currentTime windowEnd : Int) : Option (AggregationWindow F) :=
  let windowValues := (values.filter fun v =>
    v.timestamp ≥ currentTime && v.timestamp < windowEnd).map (·.value)
  if windowValues.isEmpty then none
  else
    some
      { start := currentTime
        end_ := windowEnd
        values := windowValues
        count := windowValues.length
        sum := ops.sum windowValues
        min := windowValues.foldl ops.min ops.infinity
        max := windowValues.foldl ops.max ops.negInfinity }

/-- A round of the loop of `create_aggregation_windows`, from the time and the windows so far. -/
def windowRound (endTime : Int) (windowDuration : Nat) (s : Int × List (AggregationWindow F)) :
    (Int × List (AggregationWindow F)) ⊕ Except Panic (List (AggregationWindow F)) :=
  let (currentTime, windows) := s
  if currentTime < endTime then
    match addDuration currentTime windowDuration with
    | .ok windowEnd =>
      .inl (windowEnd, windows ++ (window? ops values currentTime windowEnd).toList)
    | .error p => .inr (.error p)
  else .inr (.ok windows)

/-- `TimeSeriesMetric::create_aggregation_windows`, if the loop ends within a number of rounds. -/
def createAggregationWindows (rounds : Nat) (values : List (TimestampedValue F))
    (windowSize : Nat) : Option (Except Panic (List (AggregationWindow F))) :=
  match values.head?, values.getLast? with
  | some first, some last =>
    Loop.iterate (windowRound ops values last.timestamp windowSize) rounds (first.timestamp, [])
  | _, _ => some (.ok [])

def filteredValues (query : MetricsQuery) : List (TimestampedValue F) :=
  self.values.filter query.includes

/-- `TimeSeriesMetric::query`, if the window loop ends within a number of rounds. -/
def query (rounds : Nat) (self : TimeSeriesMetric F) (query : MetricsQuery) :
    Option (Except Panic (MetricData F)) :=
  let filtered := self.filteredValues query
  let aggregated := if filtered.isEmpty then .default ops else aggregateValues ops filtered
  let windows :=
    match query.aggregationWindow with
    | some windowSize => createAggregationWindows ops rounds filtered windowSize
    | none => some (.ok [])
  let rawValues := if query.includeRawValues then some filtered else none
  windows.map (Except.map fun windows => { aggregated, windows, rawValues })

end TimeSeriesMetric

end Kaelix.Core.Telemetry
