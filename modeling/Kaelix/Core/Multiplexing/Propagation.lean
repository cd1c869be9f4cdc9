import Kaelix.Core.Multiplexing.BackpressureManager

/-!
# The propagation graph

The two maps of the graph are relations between streams.  Over any sequence of calls each is
the converse of the other: both relate a stream to those that it was made to depend on since
either of the two was last removed.

`remove_stream` looks in each map for the sets of the other that it has to edit.  That is
enough as long as the maps mirror each other.
-/

namespace Kaelix.Core.Multiplexing

open Lib

namespace PropagationGraph

variable {sets others : Index UInt64 UInt64} {s : UInt64}

/-- Each index is the other one read backwards. -/
def Mirrored (sets others : Index UInt64 UInt64) : Prop := ∀ a b, sets.Rel a b ↔ others.Rel b a

theorem Mirrored.symm (h : Mirrored sets others) : Mirrored others sets := fun a b => (h b a).symm

private theorem not_rel_of_lookup_none (h : sets.lookup s = none) (b : UInt64) :
    ¬ sets.Rel s b := by
  simp [Index.Rel, h]

/-! ## One half of a removal -/

theorem rel_unlink_fst (a b : UInt64) :
    (unlink sets others s).1.Rel a b ↔ sets.Rel a b ∧ a ≠ s := by
  rw [unlink]
  cases h : sets.lookup s with
  | none =>
    by_cases ha : a = s
    · simp [ha, not_rel_of_lookup_none h]
    · simp [ha]
  | some => exact Index.rel_erase

private theorem rel_unlink_snd (a b : UInt64) :
    (unlink sets others s).2.Rel b a ↔ others.Rel b a ∧ ¬ (sets.Rel s b ∧ a = s) := by
  rw [unlink]
  cases h : sets.lookup s with
  | none => simp [not_rel_of_lookup_none h]
  | some members =>
    have hmem : sets.Rel s b ↔ b ∈ members.keys := by simp [Index.Rel, h, AList.mem_keys]
    rw [hmem]
    exact Index.rel_foldl_discard

theorem lookup_unlink_fst : (unlink sets others s).1.lookup s = none := by
  rw [unlink]
  cases h : sets.lookup s with
  | none => exact h
  | some => exact AList.lookup_erase s sets

theorem lookup_unlink_snd (h : others.lookup s = none) :
    (unlink sets others s).2.lookup s = none := by
  rw [unlink]
  cases sets.lookup s with
  | none => exact h
  | some => exact Index.lookup_foldl_discard h

theorem Mirrored.rel_unlink (h : Mirrored sets others) (a b : UInt64) :
    (unlink sets others s).2.Rel b a ↔ others.Rel b a ∧ a ≠ s := by
  rw [rel_unlink_snd, h s b]
  constructor
  · rintro ⟨hrel, hnot⟩
    exact ⟨hrel, fun ha => hnot ⟨ha ▸ hrel, ha⟩⟩
  · rintro ⟨hrel, ha⟩
    exact ⟨hrel, fun hand => ha hand.2⟩

theorem Mirrored.unlink (h : Mirrored sets others) :
    Mirrored (unlink sets others s).1 (unlink sets others s).2 := by
  intro a b
  rw [rel_unlink_fst, h.rel_unlink, h a b]

/-! ## Calls -/

/-- The calls that change a graph. -/
inductive Call where
  | addDependency (downstreamId upstreamId : UInt64)
  | removeStream (streamId : UInt64)
  deriving DecidableEq

/-- What a call makes of the graph. -/
def step (g : PropagationGraph) : Call → PropagationGraph
  | .addDependency downstreamId upstreamId => g.addDependency downstreamId upstreamId
  | .removeStream streamId => g.removeStream streamId

variable (calls : List Call)

/-- The graph after the calls. -/
def run : PropagationGraph := calls.foldl step .default

/-- The dependency was added, and neither stream removed since. -/
def Live (d u : UInt64) : Prop :=
  Since calls (· = .addDependency d u) fun call =>
    call ≠ .removeStream d ∧ call ≠ .removeStream u

/-- Both indexes hold the dependencies of `R`. -/
structure Has (g : PropagationGraph) (R : UInt64 → UInt64 → Prop) : Prop where
  upstream : ∀ d u, g.upstream.Rel d u ↔ R d u
  downstream : ∀ d u, g.downstream.Rel u d ↔ R d u

/-- No index names the stream. -/
structure Forgotten (g : PropagationGraph) (s : UInt64) : Prop where
  lookup_upstream : g.upstream.lookup s = none
  lookup_downstream : g.downstream.lookup s = none
  not_upstream : ∀ d, ¬ g.upstream.Rel d s
  not_downstream : ∀ u, ¬ g.downstream.Rel u s

variable {g : PropagationGraph} {R : UInt64 → UInt64 → Prop}

theorem Has.mirrored (h : g.Has R) : Mirrored g.upstream g.downstream := fun d u =>
  (h.upstream d u).trans (h.downstream d u).symm

theorem Has.addDependency (h : g.Has R) (downstreamId upstreamId : UInt64) :
    (g.addDependency downstreamId upstreamId).Has fun d u =>
      (d = downstreamId ∧ u = upstreamId) ∨ R d u where
  upstream d u := by
    rw [PropagationGraph.addDependency, Index.rel_add, h.upstream]
  downstream d u := by
    rw [PropagationGraph.addDependency, Index.rel_add, h.downstream, and_comm]

theorem Has.removeStream (h : g.Has R) (s : UInt64) :
    (g.removeStream s).Has fun d u => R d u ∧ d ≠ s ∧ u ≠ s where
  upstream d u := by
    rw [PropagationGraph.removeStream, h.mirrored.unlink.symm.rel_unlink, rel_unlink_fst,
      h.upstream, and_assoc]
  downstream d u := by
    rw [PropagationGraph.removeStream, rel_unlink_fst, h.mirrored.rel_unlink, h.downstream,
      and_assoc]

theorem Has.forgotten_removeStream (h : g.Has R) (s : UInt64) : (g.removeStream s).Forgotten s where
  lookup_upstream := lookup_unlink_snd lookup_unlink_fst
  lookup_downstream := lookup_unlink_fst
  not_upstream d := by simp [(h.removeStream s).upstream]
  not_downstream u := by simp [(h.removeStream s).downstream]

private theorem live_concat_addDependency (downstreamId upstreamId d u : UInt64) :
    Live (calls ++ [.addDependency downstreamId upstreamId]) d u ↔
      (d = downstreamId ∧ u = upstreamId) ∨ Live calls d u := by
  simp [Live, since_concat, eq_comm]

private theorem live_concat_removeStream (s d u : UInt64) :
    Live (calls ++ [.removeStream s]) d u ↔ Live calls d u ∧ d ≠ s ∧ u ≠ s := by
  simp [Live, since_concat, eq_comm, and_comm]

theorem run_concat (call : Call) : run (calls ++ [call]) = (run calls).step call := by
  simp [run]

private theorem has_run : (run calls).Has (Live calls) := by
  induction calls using List.reverseRecOn with
  | nil =>
    constructor <;> intro d u <;>
      simp [run, default, Index.Rel, Live, not_since_nil, AList.lookup_empty]
  | append_singleton calls call ih =>
    rw [run_concat]
    cases call with
    | addDependency downstreamId upstreamId =>
      simpa only [step, ← live_concat_addDependency] using
        ih.addDependency downstreamId upstreamId
    | removeStream s =>
      simpa only [step, ← live_concat_removeStream] using ih.removeStream s

private theorem mem_getPropagationTargets (d u : UInt64) :
    u ∈ g.getPropagationTargets d ↔ g.upstream.Rel d u := by
  rw [getPropagationTargets, Index.Rel]
  cases g.upstream.lookup d with
  | none => simp
  | some => simp [AList.mem_keys]

/-- Over any sequence of calls the maps mirror each other and have exactly the dependencies
that were added since either end was last removed, and a removed stream is forgotten. -/
theorem propagationGraph_symmetric (calls : List Call) :
    (∀ d u, (run calls).upstream.Rel d u ↔ (run calls).downstream.Rel u d) ∧
      (∀ d u, (run calls).upstream.Rel d u ↔ Live calls d u) ∧
      (∀ d u, u ∈ (run calls).getPropagationTargets d ↔ Live calls d u) ∧
      ∀ s, (run (calls ++ [.removeStream s])).Forgotten s := by
  have hhas := has_run calls
  refine ⟨hhas.mirrored, hhas.upstream, fun d u => ?_, fun s => ?_⟩
  · rw [mem_getPropagationTargets, hhas.upstream]
  · rw [run_concat]
    exact hhas.forgotten_removeStream s

end PropagationGraph

end Kaelix.Core.Multiplexing
