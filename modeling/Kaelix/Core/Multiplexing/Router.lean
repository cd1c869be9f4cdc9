import Kaelix.Core.Multiplexing.HashRing
import Kaelix.Core.Multiplexing.Scheduler

/-!
# The router

`IntelligentRouter` of `multiplexing/router.rs`, with every call run to its end before the next
one.  Statistics and the priority queues are left out, as routing does not read them.

A stream is in up to three places: the table of streams, the hash ring, and the list of its
region.  `Routed` says from which of them a result comes.
-/

namespace Kaelix.Core.Multiplexing

open Lib

inductive RoutingStrategy where
  | roundRobin | leastLoaded | consistentHash | geographic | priorityBased | adaptive | custom
  deriving DecidableEq

structure RoutingConfig where
  strategy : RoutingStrategy
  fallbackStrategy : Option RoutingStrategy
  deriving DecidableEq

def RoutingConfig.default : RoutingConfig :=
  { strategy := .leastLoaded, fallbackStrategy := some .roundRobin }

/-- `StreamLoadMetrics`; the numbers in it are of a type `Load`. -/
structure StreamLoadMetrics (Load : Type) where
  streamId : UInt64
  region : Option String
  load : Load

/-- `MessageMetadata`, as far as routing reads it, with the identifier as a text. -/
structure MessageMetadata where
  messageId : String
  originRegion : Option String
  deriving DecidableEq

/-- `RoutingResult`; the confidence is a health score, the latency in milliseconds. -/
structure RoutingResult (Score : Type) where
  targetStream : UInt64
  strategyUsed : RoutingStrategy
  confidence : Score
  estimatedLatency : Nat
  alternatives : List UInt64

/-- How the router weighs the loads. -/
structure Judge (Load Score : Type) where
  healthScore : StreamLoadMetrics Load → Score
  isOverloaded : StreamLoadMetrics Load → Bool
  partialCmp : Score → Score → Option Ordering
  latencyMs : StreamLoadMetrics Load → Nat
  highLoad : List (StreamLoadMetrics Load) → Bool
  roundRobinConfidence : Score
  hashConfidence : Score

/-- The greater of two elements; of elements that compare as equal, the second. -/
def laterMax {α : Type} (compare : α → α → Ordering) (x y : α) : α :=
  match compare x y with
  | .gt => x
  | _ => y

def maxBy {α : Type} (compare : α → α → Ordering) : List α → Option α
  | [] => none
  | a :: l => some (l.foldl (laterMax compare) a)

variable {α : Type}

private theorem laterMax_eq_or (compare : α → α → Ordering) (x y : α) :
    laterMax compare x y = x ∨ laterMax compare x y = y := by
  unfold laterMax
  split
  · exact .inl rfl
  · exact .inr rfl

private theorem foldl_laterMax_mem (compare : α → α → Ordering) (l : List α) (x : α) :
    l.foldl (laterMax compare) x ∈ x :: l := by
  induction l generalizing x with
  | nil => exact List.mem_cons_self
  | cons y l ih =>
    rw [List.foldl_cons]
    rcases laterMax_eq_or compare x y with heq | heq
    · rw [heq]
      rcases List.mem_cons.mp (ih x) with hfirst | hmem
      · rw [hfirst]
        exact List.mem_cons_self
      · exact List.mem_cons_of_mem _ (List.mem_cons_of_mem _ hmem)
    · rw [heq]
      exact List.mem_cons_of_mem _ (ih y)

theorem maxBy_mem {compare : α → α → Ordering} {l : List α} {a : α}
    (h : maxBy compare l = some a) : a ∈ l := by
  cases l with
  | nil => cases h
  | cons first l => exact Option.some.inj h ▸ foldl_laterMax_mem compare l first

theorem maxBy_isSome (compare : α → α → Ordering) {l : List α} (h : l ≠ []) :
    (maxBy compare l).isSome := by
  cases l with
  | nil => exact absurd rfl h
  | cons => rfl

/-- The streams, the ring and the regions. -/
structure IntelligentRouter (Load : Type) where
  config : RoutingConfig
  streams : HashMap UInt64 (StreamLoadMetrics Load)
  roundRobinCounter : UInt64
  hashRing : ConsistentHashRing
  regionMapping : HashMap String (List UInt64)

namespace IntelligentRouter

variable {Load Score : Type}

def new (config : RoutingConfig) : IntelligentRouter Load :=
  { config, streams := ∅, roundRobinCounter := 0, hashRing := .new, regionMapping := ∅ }

variable (hash : String → UInt64)

/-- `IntelligentRouter::add_stream`; a new stream has the load `idle`. -/
def addStream (idle : Load) (r : IntelligentRouter Load) (streamId : UInt64)
    (region : Option String) : IntelligentRouter Load :=
  { r with
    streams := AList.insert streamId { streamId, region, load := idle } r.streams
    hashRing := r.hashRing.addNode hash streamId
    regionMapping :=
      match region with
      | some region =>
        AList.insert region ((r.regionMapping.lookup region).getD [] ++ [streamId])
          r.regionMapping
      | none => r.regionMapping }

/-- A stream is taken out of the list of a region, and the list is removed if it is empty
then. -/
def leaveRegion (mapping : HashMap String (List UInt64)) (region : String)
    (streamId : UInt64) : HashMap String (List UInt64) :=
  match mapping.lookup region with
  | some streams =>
    let kept := streams.filter fun id => id ≠ streamId
    if kept.isEmpty then mapping.erase region else mapping.insert region kept
  | none => mapping

/-- `IntelligentRouter::remove_stream`; the region is that of the metrics. -/
def removeStream (r : IntelligentRouter Load) (streamId : UInt64) : IntelligentRouter Load :=
  { r with
    streams := r.streams.erase streamId
    hashRing := r.hashRing.removeNode streamId
    regionMapping :=
      match (r.streams.lookup streamId).map StreamLoadMetrics.region with
      | some (some region) => leaveRegion r.regionMapping region streamId
      | _ => r.regionMapping }

def updateStreamMetrics (r : IntelligentRouter Load) (metrics : StreamLoadMetrics Load) :
    IntelligentRouter Load :=
  { r with streams := r.streams.insert metrics.streamId metrics }

variable (judge : Judge Load Score) (r : IntelligentRouter Load)

/-- Metrics by their health scores; scores that cannot be compared count as equal. -/
def compareHealth (a b : StreamLoadMetrics Load) : Ordering :=
  (judge.partialCmp (judge.healthScore a) (judge.healthScore b)).getD .eq

def routeRoundRobin : Except Error (RoutingResult Score) × IntelligentRouter Load :=
  let streamIds := r.streams.keys
  if h : streamIds = [] then (.error (.runtime "No streams available for routing"), r)
  else
    let target := streamIds.get
      ⟨r.roundRobinCounter.toNat % streamIds.length, Nat.mod_lt _ (List.length_pos_iff.mpr h)⟩
    (.ok
      { targetStream := target
        strategyUsed := .roundRobin
        confidence := judge.roundRobinConfidence
        estimatedLatency := 50
        alternatives := streamIds.filter fun s => s ≠ target },
      { r with roundRobinCounter := r.roundRobinCounter + 1 })

def routeLeastLoaded : Except Error (RoutingResult Score) :=
  if r.streams.keys = [] then .error (.runtime "No streams available for routing")
  else
    match maxBy (fun a b => compareHealth judge a.2 b.2)
      (r.streams.entries.filter fun e => !judge.isOverloaded e.2) with
    | none => .error (.runtime "No healthy streams available")
    | some e =>
      .ok
        { targetStream := e.1
          strategyUsed := .leastLoaded
          confidence := judge.healthScore e.2
          estimatedLatency := judge.latencyMs e.2
          alternatives := r.streams.keys.filter fun s => s ≠ e.1 }

variable (metadata : MessageMetadata)

def routeConsistentHash : Except Error (RoutingResult Score) :=
  match r.hashRing.getNode hash metadata.messageId with
  | none => .error (.runtime "No nodes in hash ring")
  | some target =>
    .ok
      { targetStream := target
        strategyUsed := .consistentHash
        confidence := judge.hashConfidence
        estimatedLatency := 30
        alternatives := [] }

/-- The streams of a list that are in the table and not overloaded, with their metrics. -/
def candidates (regionStreams : List UInt64) : List (UInt64 × StreamLoadMetrics Load) :=
  (regionStreams.filterMap fun id => (r.streams.lookup id).map fun m => (id, m)).filter
    fun e => !judge.isOverloaded e.2

def routeWithin (regionStreams : List UInt64) : Except Error (RoutingResult Score) :=
  match maxBy (fun a b => compareHealth judge a.2 b.2) (r.candidates judge regionStreams) with
  | none => .error (.runtime "No healthy streams in region")
  | some e =>
    .ok
      { targetStream := e.1
        strategyUsed := .geographic
        confidence := judge.healthScore e.2
        estimatedLatency := judge.latencyMs e.2 / 2
        alternatives := regionStreams.filter fun s => s ≠ e.1 }

def routeGeographic : Except Error (RoutingResult Score) :=
  match metadata.originRegion with
  | some region =>
    match r.regionMapping.lookup region with
    | some regionStreams =>
      if regionStreams = [] then r.routeLeastLoaded judge
      else r.routeWithin judge regionStreams
    | none => r.routeLeastLoaded judge
  | none => r.routeLeastLoaded judge

def routePriorityBased : Except Error (RoutingResult Score) :=
  (r.routeLeastLoaded judge).map fun result => { result with strategyUsed := .priorityBased }

def routeAdaptive : Except Error (RoutingResult Score) :=
  if judge.highLoad r.streams.values then r.routeLeastLoaded judge
  else if metadata.originRegion.isSome then r.routeGeographic judge metadata
  else r.routeConsistentHash hash judge metadata

def routePrimary : Except Error (RoutingResult Score) × IntelligentRouter Load :=
  match r.config.strategy with
  | .roundRobin => r.routeRoundRobin judge
  | .leastLoaded => (r.routeLeastLoaded judge, r)
  | .consistentHash => (r.routeConsistentHash hash judge metadata, r)
  | .geographic => (r.routeGeographic judge metadata, r)
  | .priorityBased => (r.routePriorityBased judge, r)
  | .adaptive => (r.routeAdaptive hash judge metadata, r)
  -- `route_custom` is `route_least_loaded`
  | .custom => (r.routeLeastLoaded judge, r)

/-- The strategy, or the fallback where it fails. -/
def routeMessage : Except Error (RoutingResult Score) × IntelligentRouter Load :=
  match r.routePrimary hash judge metadata with
  | (.ok result, r) => (.ok result, r)
  | (.error e, r) =>
    match r.config.fallbackStrategy with
    | some .roundRobin => r.routeRoundRobin judge
    | some .leastLoaded => (r.routeLeastLoaded judge, r)
    | some _ => (.error (.runtime "No viable routing strategy"), r)
    | none => (.error e, r)

end IntelligentRouter

end Kaelix.Core.Multiplexing
