import Kaelix.Cluster.Consensus.NodeSpec
import Mathlib.Data.List.Chain

/-!
# Applying committed entries

`apply_committed_entries` moves `last_applied` forward before it calls the apply
function, and leaves it there when the function fails.  Every committed entry is
therefore offered once, in the order of the log, whether or not the function accepts it:
a failed entry counts as applied and is never offered again.
-/

namespace Kaelix.Cluster.Raft

open Lib

/-- An entry given to an apply function, and the answer. -/
abbrev Offer := LogEntry × ConsensusResult Unit

/-- The entry, if it was accepted. -/
def Offer.applied : Offer → Option LogEntry
  | (entry, .ok ()) => some entry
  | (_, .error _) => none

theorem filterMap_applied_eq_iff (offers : List Offer) :
    offers.filterMap Offer.applied = offers.map Prod.fst ↔
      ∀ offer ∈ offers, offer.2 = .ok () := by
  induction offers with
  | nil => simp
  | cons offer offers ih =>
    obtain ⟨entry, answer⟩ := offer
    cases answer with
    | ok => simpa [Offer.applied] using ih
    | error =>
      refine iff_of_false ?_ ?_
      · intro heq
        have hlen := congrArg List.length heq
        have hle := List.length_filterMap_le Offer.applied offers
        simp only [List.filterMap_cons, Offer.applied, List.map_cons, List.length_cons,
          List.length_map] at hlen
        omega
      · intro hall
        cases hall _ List.mem_cons_self

namespace RaftNode

/-- The offers of the loop. -/
def loopOffers (applyFn : Nat → LogEntry → ConsensusResult Unit) :
    Nat → Nat → RaftNode → List Offer
  | 0, _, _ => []
  | left + 1, calls, self =>
    let self := { self with lastApplied := self.lastApplied + 1 }
    match self.entryAt self.lastApplied with
    | some entry =>
      match applyFn calls entry with
      | .error e => [(entry, .error e)]
      | .ok () =>
        (entry, .ok ()) :: loopOffers applyFn left (calls + 1) { self with
          metrics := { self.metrics with
            entriesCommitted := self.metrics.entriesCommitted + 1 } }
    | none => []

/-- The offers of one call. -/
def offers (self : RaftNode) (applyFn : Nat → LogEntry → ConsensusResult Unit) : List Offer :=
  loopOffers applyFn (self.commitIndex - self.lastApplied) 0 self

private theorem take_append_loopOffers (applyFn : Nat → LogEntry → ConsensusResult Unit)
    (left : Nat) : ∀ (calls : Nat) (a : RaftNode), a.lastApplied + left ≤ a.log.length →
      a.log.take a.lastApplied ++ (loopOffers applyFn left calls a).map Prod.fst =
          a.log.take (applyLoop applyFn left calls a).1.lastApplied ∧
        (applyLoop applyFn left calls a).1.lastApplied ≤ a.lastApplied + left := by
  induction left with
  | zero =>
    intro calls a _
    exact ⟨List.append_nil _, Nat.le_refl _⟩
  | succ left ih =>
    intro calls a hle
    have hlt : a.lastApplied < a.log.length := by omega
    have hent : a.log[a.lastApplied]? = some a.log[a.lastApplied] :=
      List.getElem?_eq_getElem hlt
    have htake := List.take_append_getElem hlt
    simp only [loopOffers, applyLoop, entryAt, Nat.add_sub_cancel, hent]
    cases happly : applyFn calls a.log[a.lastApplied] with
    | error => exact ⟨htake, by simp⟩
    | ok =>
      obtain ⟨hrest, hbound⟩ := ih (calls + 1) { a with
        lastApplied := a.lastApplied + 1
        metrics := { a.metrics with
          entriesCommitted := a.metrics.entriesCommitted + 1 } }
        (by dsimp only; omega)
      refine ⟨?_, by dsimp only at hbound ⊢; omega⟩
      rw [← hrest]
      dsimp only
      rw [← htake, List.append_assoc]
      rfl

theorem take_append_offers {a : RaftNode} (happlied : a.lastApplied ≤ a.commitIndex)
    (hcom : a.commitIndex ≤ a.log.length) (applyFn : Nat → LogEntry → ConsensusResult Unit) :
    a.log.take a.lastApplied ++ (a.offers applyFn).map Prod.fst =
        a.log.take (a.applyCommittedEntries applyFn).1.lastApplied ∧
      (a.applyCommittedEntries applyFn).1.lastApplied ≤ a.commitIndex := by
  have hloop := take_append_loopOffers applyFn (a.commitIndex - a.lastApplied) 0 a (by omega)
  exact ⟨hloop.1, hloop.2.trans (by omega)⟩

end RaftNode

/-! ## Histories -/

/-- What happens to a node between two looks at it: its commit index grows within the
log, or its committed entries are applied. -/
inductive ApplyStep
  | commit (index : Nat)
  | apply (applyFn : Nat → LogEntry → ConsensusResult Unit)

/-- A node with the calls of apply functions made so far, grouped by the call of
`apply_committed_entries` that made them. -/
structure Applying where
  node : RaftNode
  calls : List (List Offer)

namespace Applying

/-- One step.  A commit index that is not an increase within the log is ignored. -/
def step (s : Applying) : ApplyStep → Applying
  | .commit index =>
    if s.node.commitIndex ≤ index ∧ index ≤ s.node.log.length then
      { s with node := { s.node with commitIndex := index } }
    else s
  | .apply applyFn =>
    { node := (s.node.applyCommittedEntries applyFn).1
      calls := s.calls ++ [s.node.offers applyFn] }

/-- A node after some steps. -/
def history (start : RaftNode) (steps : List ApplyStep) : Applying :=
  steps.foldl step { node := start, calls := [] }

/-- All entries accepted so far. -/
def applied (s : Applying) : List LogEntry := s.calls.flatten.filterMap Offer.applied

/-- What a call fails on is what the next one begins with. -/
def Reoffers (call next : List Offer) : Prop :=
  ∀ entry e, (entry, Except.error e) ∈ call → next.head?.map Prod.fst = some entry

/-- The accepted entries are the log up to `last_applied`, and a failed entry is offered
again on the next call. -/
def ExactlyOnce (s : Applying) : Prop :=
  s.applied = s.node.log.take s.node.lastApplied ∧ s.calls.IsChain Reoffers

/-- Every entry up to `last_applied` has been offered once. -/
structure OfferedOnce (s : Applying) : Prop where
  offered : s.calls.flatten.map Prod.fst = s.node.log.take s.node.lastApplied
  applied_le : s.node.lastApplied ≤ s.node.commitIndex
  commit_le : s.node.commitIndex ≤ s.node.log.length

theorem OfferedOnce.step {s : Applying} (h : OfferedOnce s) (a : ApplyStep) :
    OfferedOnce (s.step a) := by
  cases a with
  | commit =>
    simp only [Applying.step]
    split
    · rename_i hindex
      exact ⟨h.offered, h.applied_le.trans hindex.1, hindex.2⟩
    · exact h
  | apply applyFn =>
    obtain ⟨htake, hle⟩ := RaftNode.take_append_offers h.applied_le h.commit_le applyFn
    have hlog : (s.node.applyCommittedEntries applyFn).1.log = s.node.log := by
      rw [RaftNode.applyCommittedEntries_eq]
    have hcom : (s.node.applyCommittedEntries applyFn).1.commitIndex = s.node.commitIndex := by
      rw [RaftNode.applyCommittedEntries_eq]
    simp only [Applying.step]
    refine ⟨?_, hle.trans hcom.ge, ?_⟩
    · rw [List.flatten_append, List.flatten_singleton, List.map_append, h.offered, htake, hlog]
    · rw [hcom, hlog]
      exact h.commit_le

theorem OfferedOnce.run {s : Applying} (h : OfferedOnce s) (steps : List ApplyStep) :
    OfferedOnce (steps.foldl Applying.step s) := by
  induction steps generalizing s with
  | nil => exact h
  | cons a steps ih => exact ih (h.step a)

/-- From a node that has applied nothing, the committed entries are applied exactly once
if and only if no apply function ever fails. -/
theorem exactlyOnce_iff (start : RaftNode) (hstart : start.lastApplied = 0)
    (hcom : start.commitIndex ≤ start.log.length) (steps : List ApplyStep) :
    (history start steps).ExactlyOnce ↔
      ∀ offer ∈ (history start steps).calls.flatten, offer.2 = .ok () := by
  have h0 : OfferedOnce { node := start, calls := [] } :=
    ⟨by rw [hstart]; rfl, by dsimp only; omega, hcom⟩
  have h : OfferedOnce (history start steps) := h0.run steps
  unfold ExactlyOnce applied
  rw [← h.offered, filterMap_applied_eq_iff]
  refine and_iff_left_of_imp fun hall => ?_
  -- without a failure there is nothing to offer again
  refine (List.pairwise_of_forall_mem_list fun call hcall next _ => ?_).isChain
  intro entry e hfail
  cases hall _ (List.mem_flatten.mpr ⟨call, hcall, hfail⟩)

def twoCommitted : RaftNode :=
  { RaftNode.new ⟨0⟩ 1 .default with
    log := [.new 1 1 [1] ⟨0⟩, .new 1 2 [2] ⟨0⟩], commitIndex := 2 }

def failsFirst (calls : Nat) (_entry : LogEntry) : ConsensusResult Unit :=
  if calls = 0 then .error (.generic "failed") else .ok ()

/-- The first entry fails; the second call offers the second entry, and the first one is
never applied. -/
theorem failed_entry_skipped :
    let s := history twoCommitted [.apply failsFirst, .apply fun _ _ => .ok ()]
    s.node.lastApplied = 2 ∧ s.applied = [.new 1 2 [2] ⟨0⟩] ∧ ¬ s.ExactlyOnce := by
  refine ⟨by decide, by decide, ?_⟩
  intro h
  exact absurd h.1 (by decide)

theorem all_accepted_exactly_once :
    (history twoCommitted [.apply fun _ _ => .ok ()]).ExactlyOnce :=
  (exactlyOnce_iff twoCommitted rfl (by decide) [.apply fun _ _ => .ok ()]).mpr (by decide)

end Applying

end Kaelix.Cluster.Raft
