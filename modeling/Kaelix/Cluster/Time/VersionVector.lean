import Kaelix.Cluster.Time.VectorClock

/-!
# Version vectors

`VersionVector` of `kaelix-cluster/src/time/mod.rs`.  `is_descendant_of` looks only at the
versions that the other vector stores; a version that is not stored is `0`, so that this is enough
to compare the tables as a whole.
-/

namespace Kaelix.Cluster.Time

open Lib

def CausalityRelation.swap : CausalityRelation → CausalityRelation
  | .before => .after
  | .after => .before
  | .concurrent => .concurrent
  | .equal => .equal

structure VersionVector where
  versions : HashMap NodeId Nat

namespace VersionVector

def getVersion (self : VersionVector) (nodeId : NodeId) : Nat :=
  (self.versions.lookup nodeId).getD 0

def coversAll (self : VersionVector) : List (Sigma fun _ : NodeId => Nat) → Bool
  | [] => true
  | entry :: entries =>
    if self.getVersion entry.1 < entry.2 then false else self.coversAll entries

variable (self other : VersionVector)

def isDescendantOf : Bool := self.coversAll other.versions.entries

def raise (versions : HashMap NodeId Nat) (entry : Sigma fun _ : NodeId => Nat) :
    HashMap NodeId Nat :=
  let selfVersion := (versions.lookup entry.1).getD 0
  versions.insert entry.1 (max selfVersion entry.2)

def merge : VersionVector :=
  { versions := other.versions.entries.foldl raise self.versions }

def compare : CausalityRelation :=
  match self.isDescendantOf other, other.isDescendantOf self with
  | true, true => .equal
  | true, false => .after
  | false, true => .before
  | false, false => .concurrent

/-! ## The operations on tables of counters -/

variable (v w : VersionVector)

theorem merge_versions :
    (v.merge w).versions = Counters.merge v.versions w.versions := rfl

theorem getVersion_merge (n : NodeId) :
    (v.merge w).getVersion n = max (v.getVersion n) (w.getVersion n) :=
  Counters.get_merge v.versions w.versions n

private theorem coversAll_iff (v : VersionVector) (entries : List (Sigma fun _ : NodeId => Nat)) :
    v.coversAll entries = true ↔ ∀ e ∈ entries, e.2 ≤ v.getVersion e.1 := by
  induction entries with
  | nil => exact ⟨fun _ e he => (by cases he), fun _ => rfl⟩
  | cons entry entries ih =>
    rw [coversAll, List.forall_mem_cons]
    by_cases h : v.getVersion entry.1 < entry.2
    · rw [if_pos h]
      constructor
      · intro hf
        cases hf
      · intro hle
        exact absurd hle.1 (Nat.not_le.mpr h)
    · rw [if_neg h, ih]
      exact ⟨fun hrest => ⟨Nat.not_lt.mp h, hrest⟩, And.right⟩

theorem isDescendantOf_iff : v.isDescendantOf w = true ↔ Counters.Below w.versions v.versions := by
  rw [isDescendantOf, coversAll_iff, Counters.below_iff_entries]
  rfl

theorem compare_eq {r : CausalityRelation} :
    v.compare w = r ↔
      match r with
      | .equal => Counters.Below w.versions v.versions ∧ Counters.Below v.versions w.versions
      | .after => Counters.Below w.versions v.versions ∧ ¬ Counters.Below v.versions w.versions
      | .before => ¬ Counters.Below w.versions v.versions ∧ Counters.Below v.versions w.versions
      | .concurrent =>
        ¬ Counters.Below w.versions v.versions ∧ ¬ Counters.Below v.versions w.versions := by
  simp only [← isDescendantOf_iff]
  rw [compare]
  cases v.isDescendantOf w <;> cases w.isDescendantOf v <;> cases r <;> simp

private theorem compare_swap : w.compare v = (v.compare w).swap := by
  rw [compare, compare]
  cases v.isDescendantOf w <;> cases w.isDescendantOf v <;> rfl

private theorem compare_vectorClock (n n' : NodeId) (m m' : HashMap NodeId Nat) :
    VectorClock.compare ⟨n, m⟩ ⟨n', m'⟩ = compare ⟨m⟩ ⟨m'⟩ := by
  obtain ⟨hbef, hafter, hconc⟩ := VectorClock.compare_iff ⟨n, m⟩ ⟨n', m'⟩
  symm
  rw [compare_eq]
  cases hc : VectorClock.compare ⟨n, m⟩ ⟨n', m'⟩ with
  | before => exact (hbef.mp hc).symm
  | after => exact hafter.mp hc
  | concurrent => exact (hconc.mp hc).symm
  | equal =>
    rw [hc] at hbef hafter hconc
    have hbelow : VectorClock.Below ⟨n, m⟩ ⟨n', m'⟩ ∧ VectorClock.Below ⟨n', m'⟩ ⟨n, m⟩ := by
      simp only [reduceCtorEq, false_iff] at hbef hafter hconc
      tauto
    exact hbelow.symm

end VersionVector

/-- `VectorClock::compare` and `VersionVector::compare` give the same relation on the same
maps.  It is `Equal` iff the maps agree up to missing zeros, it is exchanged with its
arguments, and `Before` is transitive. -/
theorem comparators_agree (n₁ n₂ : NodeId) (m₁ m₂ m₃ : HashMap NodeId Nat) :
    VectorClock.compare ⟨n₁, m₁⟩ ⟨n₂, m₂⟩ = VersionVector.compare ⟨m₁⟩ ⟨m₂⟩ ∧
      (VersionVector.compare ⟨m₁⟩ ⟨m₂⟩ = .equal ↔
        ∀ n, (m₁.lookup n).getD 0 = (m₂.lookup n).getD 0) ∧
      VersionVector.compare ⟨m₂⟩ ⟨m₁⟩ = (VersionVector.compare ⟨m₁⟩ ⟨m₂⟩).swap ∧
      (VersionVector.compare ⟨m₁⟩ ⟨m₂⟩ = .before → VersionVector.compare ⟨m₂⟩ ⟨m₃⟩ = .before →
        VersionVector.compare ⟨m₁⟩ ⟨m₃⟩ = .before) := by
  refine ⟨VersionVector.compare_vectorClock n₁ n₂ m₁ m₂, ?_,
    VersionVector.compare_swap ⟨m₁⟩ ⟨m₂⟩, ?_⟩
  · rw [VersionVector.compare_eq]
    exact and_comm.trans (Counters.below_antisymm_iff m₁ m₂)
  · rw [VersionVector.compare_eq, VersionVector.compare_eq, VersionVector.compare_eq]
    rintro ⟨hnot, hbelow⟩ ⟨-, hbelow'⟩
    exact ⟨fun h => hnot (hbelow'.trans h), hbelow.trans hbelow'⟩

/-- `merge` is the least descendant of both vectors; up to missing zeros it is commutative,
associative and idempotent. -/
theorem merge_is_join (a b c : VersionVector) :
    ((a.merge b).isDescendantOf a = true ∧ (a.merge b).isDescendantOf b = true) ∧
      (c.isDescendantOf a = true → c.isDescendantOf b = true →
        c.isDescendantOf (a.merge b) = true) ∧
      (∀ n, (a.merge b).getVersion n = (b.merge a).getVersion n) ∧
      (∀ n, ((a.merge b).merge c).getVersion n = (a.merge (b.merge c)).getVersion n) ∧
      ∀ n, (a.merge a).getVersion n = a.getVersion n := by
  simp only [VersionVector.isDescendantOf_iff, VersionVector.merge_versions,
    VersionVector.getVersion_merge]
  refine ⟨⟨Counters.below_merge_left _ _, Counters.below_merge_right _ _⟩, ?_, ?_, ?_, ?_⟩
  · intro ha hb
    exact (Counters.merge_below_iff _ _ _).mpr ⟨ha, hb⟩
  · exact fun n => Nat.max_comm _ _
  · exact fun n => Nat.max_assoc _ _ _
  · exact fun n => Nat.max_self _

end Kaelix.Cluster.Time
