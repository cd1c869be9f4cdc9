import Kaelix.Core.Multiplexing.Backpressure
import Kaelix.Lib.SecondaryIndex
import Mathlib.Data.Rat.Lemmas

/-!
# The backpressure manager

`BackpressureManager` has the credits of every stream and the graph along which pressure is
passed on.  `PropagationGraph` keeps each dependency twice: `upstream` finds the streams that
a stream depends on, `downstream` those that depend on it.

The calls are made one after another.  The metrics and the queue of refills are left out.
-/

namespace Kaelix.Core.Multiplexing

open Lib

namespace BackpressureLevel

def toNat : BackpressureLevel → Nat
  | .none => 0
  | .light => 1
  | .moderate => 2
  | .heavy => 3
  | .critical => 4

theorem toNat_injective : Function.Injective toNat := by
  intro a b h
  cases a <;> cases b <;> first | rfl | cases h

instance : LinearOrder BackpressureLevel :=
  { PartialOrder.lift toNat toNat_injective with
    le_total := fun a b => Nat.le_total a.toNat b.toNat
    toDecidableLE := fun a b => inferInstanceAs (Decidable (a.toNat ≤ b.toNat))
    toDecidableEq := inferInstance }

end BackpressureLevel

/-- Which streams slow down which others. -/
structure PropagationGraph where
  upstream : Index UInt64 UInt64
  downstream : Index UInt64 UInt64

namespace PropagationGraph

def default : PropagationGraph := { upstream := ∅, downstream := ∅ }

variable (g : PropagationGraph)

def addDependency (downstreamId upstreamId : UInt64) : PropagationGraph :=
  { upstream := g.upstream.add downstreamId upstreamId
    downstream := g.downstream.add upstreamId downstreamId }

def getPropagationTargets (streamId : UInt64) : List UInt64 :=
  match g.upstream.lookup streamId with
  | some upstreamStreams => upstreamStreams.keys
  | none => []

/-- One half of `PropagationGraph::remove_stream`: take the set of the stream out of one map,
and the stream out of the sets that the members have in the other. -/
def unlink (sets others : Index UInt64 UInt64) (streamId : UInt64) :
    Index UInt64 UInt64 × Index UInt64 UInt64 :=
  match sets.lookup streamId with
  | some members =>
    (sets.erase streamId,
      members.keys.foldl (fun (others : Index UInt64 UInt64) id => others.discard id streamId)
        others)
  | none => (sets, others)

def removeStream (streamId : UInt64) : PropagationGraph :=
  let upstreamRemoved := unlink g.upstream g.downstream streamId
  let downstreamRemoved := unlink upstreamRemoved.2 upstreamRemoved.1 streamId
  { upstream := downstreamRemoved.2, downstream := downstreamRemoved.1 }

end PropagationGraph

/-- The credits of all streams. -/
structure BackpressureManager where
  streamStates : HashMap UInt64 StreamCreditState
  propagationGraph : PropagationGraph
  config : BackpressureConfig
  globalPressure : BackpressureLevel

/-- The level that `update_global_pressure` finds for the levels of the streams.  The ratios
are exact. -/
def globalLevel (levels : List BackpressureLevel) : BackpressureLevel :=
  let totalStreams := levels.length
  let pressureCounts (level : BackpressureLevel) : Nat := levels.count level
  if totalStreams = 0 then .none
  else
    let criticalRatio : Rat := (pressureCounts .critical : Rat) / totalStreams
    let heavyRatio : Rat := (pressureCounts .heavy : Rat) / totalStreams
    let moderateRatio : Rat := (pressureCounts .moderate : Rat) / totalStreams
    if criticalRatio > 1 / 10 then .critical
    else if heavyRatio > 2 / 10 then .heavy
    else if moderateRatio > 3 / 10 then .moderate
    else if pressureCounts .light > 0 then .light
    else .none

namespace BackpressureManager

def new (config : BackpressureConfig) : BackpressureManager :=
  { streamStates := ∅, propagationGraph := .default, config, globalPressure := .none }

variable (m : BackpressureManager)

def registerStream (streamId : UInt64) (now : Nat) :
    Except MultiplexerError Unit × BackpressureManager :=
  if streamId ∈ m.streamStates then
    (.error (.stream s!"Stream {streamId} already registered for backpressure management"), m)
  else
    (.ok (), { m with
      streamStates := m.streamStates.insert streamId (.new m.config.initialCredits now) })

def unregisterStream (streamId : UInt64) : Except MultiplexerError Unit × BackpressureManager :=
  (.ok (), { m with
    streamStates := m.streamStates.erase streamId
    propagationGraph := m.propagationGraph.removeStream streamId })

def levels : List BackpressureLevel :=
  m.streamStates.values.map StreamCreditState.pressureLevel

/-- The share of streams at each level decides. -/
def updateGlobalPressure : BackpressureManager :=
  { m with globalPressure := globalLevel m.levels }

variable (level : UInt64 → BackpressureLevel)

def assign : BackpressureManager :=
  { m with
    streamStates := m.streamStates.mapEntries fun id state =>
      { state with pressureLevel := level id } }

theorem levels_assign : (m.assign level).levels = m.streamStates.keys.map level := by
  rw [levels, HashMap.values, assign, HashMap.mapEntries, AList.keys, List.keys]
  simp

end BackpressureManager

end Kaelix.Core.Multiplexing
