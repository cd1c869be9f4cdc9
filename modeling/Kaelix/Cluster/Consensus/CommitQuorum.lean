import Kaelix.Cluster.Consensus.StateMachineSafety

/-!
# The commit quorum rule

A leader may advance its commit index to `k` only when more than half of the cluster holds index
`k`.  `try_advance_commit_index` takes the upper median of the recorded match indices and the own
log, which at least half of these values reach, rounded up.
-/

namespace Kaelix.Cluster.Raft

open Lib

namespace RaftNode

variable (a : RaftNode)

/-- The members that hold index `k` by the leader's records: the leader itself, and every
follower whose match index reaches `k`. -/
def holders (k : Nat) : Nat :=
  a.matchIndex.values.countP (fun x => decide (k ≤ x)) + 1

/-- If `try_advance_commit_index` changes the commit index, more than half of the cluster
holds the new one, and the entry there is of the current term. -/
def CommitQuorum : Prop :=
  ∀ k, a.tryAdvanceCommitIndex.commitIndex = k → k ≠ a.commitIndex →
    a.clusterSize < 2 * a.holders k ∧
      ∃ entry, a.entryAt k = some entry ∧ entry.term = a.currentTerm

/-- Half of the recorded values reach `k`, and no higher index is reached so often. -/
def HalfReach (k : Nat) : Prop :=
  a.replicas.length ≤ 2 * a.reach k ∧ 2 * a.reach (k + 1) < a.replicas.length

variable {a : RaftNode} {k : Nat}

theorem holders_eq_reach (hk : k ≤ a.log.length) : a.holders k = a.reach k := by
  rw [reach, replicas, List.countP_append, holders]
  simp [hk]

private theorem length_replicas : a.replicas.length = a.matchIndex.keys.length + 1 := by
  rw [replicas, List.length_append, HashMap.length_values, List.length_singleton]

private theorem halfReach_iff : a.HalfReach k ↔ a.medianIndex = k := by
  rw [medianIndex_eq]
  exact Lib.halfReach_iff (by simp [replicas])

theorem commitQuorum_iff_holders (hstate : a.state = .leader) :
    a.CommitQuorum ↔ ∀ k, a.HalfReach k → a.commitIndex < k →
      (∃ entry, a.entryAt k = some entry ∧ entry.term = a.currentTerm) →
        a.clusterSize < 2 * a.holders k := by
  constructor
  · intro h k hk hlt hent
    obtain rfl := halfReach_iff.mp hk
    have hadv : a.Advances := ⟨hstate, hlt, hent⟩
    have hnew : a.tryAdvanceCommitIndex.commitIndex = a.medianIndex := by
      rw [tryAdvanceCommitIndex_of_advances hadv]
    exact (h a.medianIndex hnew (Nat.ne_of_gt hlt)).1
  · intro h k hk hne
    by_cases hadv : a.Advances
    · rw [tryAdvanceCommitIndex_of_advances hadv] at hk
      obtain rfl : a.medianIndex = k := hk
      exact ⟨h _ (halfReach_iff.mpr rfl) hadv.2.1 hadv.2.2, hadv.2.2⟩
    · rw [tryAdvanceCommitIndex_of_not_advances hadv] at hk
      exact absurd hk.symm hne

theorem commitQuorum_of_odd (hodd : a.clusterSize % 2 = 1)
    (hall : a.matchIndex.keys.length + 1 = a.clusterSize) : a.CommitQuorum := by
  intro k hk hne
  by_cases hadv : a.Advances
  · rw [tryAdvanceCommitIndex_of_advances hadv] at hk
    obtain rfl : a.medianIndex = k := hk
    refine ⟨?_, hadv.2.2⟩
    have hreach := a.le_reach_medianIndex
    rw [holders_eq_reach hadv.medianIndex_le]
    rw [length_replicas, hall] at hreach
    omega
  · rw [tryAdvanceCommitIndex_of_not_advances hadv] at hk
    exact absurd hk.symm hne

/-! ## Clusters in which half of the records is no majority -/

variable (leader : NodeId)

variable (n : Nat)

/-- A leader of term 1 with one uncommitted entry, which of the followers in `F` those in
`S` hold. -/
noncomputable def halfHeld (F S : Finset NodeId) : RaftNode :=
  { new leader n .default with
    currentTerm := 1
    state := .leader
    log := [LogEntry.new 1 1 [] ⟨0⟩]
    matchIndex := HashMap.ofKeys F.toList F.nodup_toList fun f => if f ∈ S then 1 else 0 }

theorem halfHeld_replicas (F S : Finset NodeId) :
    (halfHeld leader n F S).replicas = (F.toList.map fun f => if f ∈ S then 1 else 0) ++ [1] := by
  rw [replicas, halfHeld, HashMap.values_ofKeys]
  rfl

private theorem halfHeld_reach_one {F S : Finset NodeId}
    (hsub : S ⊆ F) : (halfHeld leader n F S).reach 1 = S.card + 1 := by
  have hcnt : F.toList.countP (fun f => decide (f ∈ S)) = S.card := by
    rw [← Multiset.coe_countP, Finset.coe_toList, Multiset.countP_eq_card_filter,
      ← Finset.filter_val, ← Finset.card_def, Finset.filter_mem_eq_inter,
      Finset.inter_eq_right.mpr hsub]
  rw [reach, halfHeld_replicas, List.countP_append, List.countP_map, ← hcnt]
  congr 1
  apply List.countP_congr
  intro f _
  by_cases hf : f ∈ S <;> simp [hf]

private theorem halfHeld_reach_two (F S : Finset NodeId) : (halfHeld leader n F S).reach 2 = 0 := by
  rw [reach, halfHeld_replicas, List.countP_eq_zero]
  intro x hx
  simp only [List.mem_append, List.mem_map, List.mem_singleton] at hx
  rw [decide_eq_true_eq]
  obtain ⟨f, -, rfl⟩ | rfl := hx
  · split <;> omega
  · omega

private theorem exists_not_commitQuorum {n : Nat} (leader : NodeId) {F : Finset NodeId}
    (hle : F.card + 1 ≤ n) (h : ¬ (n % 2 = 1 ∧ F.card + 1 = n)) :
    ∃ S, ¬ (halfHeld leader n F S).CommitQuorum := by
  -- the leader and the followers in `S` are half of the recorded values, rounded up
  obtain ⟨S, hsub, hcard⟩ :=
    Finset.exists_subset_card_eq (show (F.card + 1) - (F.card + 1) / 2 - 1 ≤ F.card by omega)
  refine ⟨S, fun hquo => ?_⟩
  have hreach := halfHeld_reach_one leader n hsub
  have hlen : (halfHeld leader n F S).replicas.length = F.card + 1 := by
    rw [halfHeld_replicas, List.length_append, List.length_map, Finset.length_toList]
    rfl
  have hhalf : (halfHeld leader n F S).HalfReach 1 := by
    rw [HalfReach, hlen, hreach, halfHeld_reach_two]
    omega
  have hmany := (commitQuorum_iff_holders rfl).mp hquo 1 hhalf Nat.one_pos ⟨_, rfl, rfl⟩
  rw [holders_eq_reach (Nat.le_refl 1), hreach] at hmany
  have hsize : (halfHeld leader n F S).clusterSize = n := rfl
  omega

/-- The quorum rule of a leader, for its state and for its cluster.  The state obeys it
iff the highest index that half of the recorded values reach, if it is uncommitted and of
the current term, is held by more than half of the cluster.  Every state of the leader with
records of the same followers obeys it iff the cluster is odd and every follower has a
record. -/
theorem commit_quorum_iff (a : RaftNode) (hstate : a.state = .leader)
    (hkeys : a.matchIndex.keys.length + 1 ≤ a.clusterSize) :
    (a.CommitQuorum ↔ ∀ k, a.HalfReach k → a.commitIndex < k →
      (∃ entry, a.entryAt k = some entry ∧ entry.term = a.currentTerm) →
        a.clusterSize < 2 * a.holders k) ∧
    ((∀ b : RaftNode, b.state = .leader → b.nodeId = a.nodeId →
        b.clusterSize = a.clusterSize →
        b.matchIndex.keys.toFinset = a.matchIndex.keys.toFinset → b.CommitQuorum) ↔
      a.clusterSize % 2 = 1 ∧ a.matchIndex.keys.length + 1 = a.clusterSize) := by
  have hcard : ∀ b : RaftNode, b.matchIndex.keys.toFinset.card = b.matchIndex.keys.length :=
    fun b => List.toFinset_card_of_nodup b.matchIndex.keys_nodup
  refine ⟨commitQuorum_iff_holders hstate, ?_⟩
  constructor
  · intro h
    by_contra hno
    rw [← hcard] at hkeys hno
    obtain ⟨S, hS⟩ := exists_not_commitQuorum a.nodeId hkeys hno
    refine hS (h _ rfl rfl rfl ?_)
    rw [halfHeld, HashMap.keys_ofKeys, Finset.toList_toFinset]
  · rintro ⟨hodd, hall⟩ b _ _ hsize hsame
    rw [← hsize] at hodd hall
    refine commitQuorum_of_odd hodd ?_
    rw [← hall, ← hcard, ← hcard, hsame]

/-- A leader of term 1 with one uncommitted entry and the given match indices of the
nodes 1, 2, .... -/
def leaderWith (matchIndex : HashMap NodeId Nat) : RaftNode :=
  { new ⟨0⟩ n .default with
    currentTerm := 1
    state := .leader
    log := [LogEntry.new 1 1 [] ⟨0⟩]
    matchIndex := matchIndex }

def twoOfThree : RaftNode := leaderWith 3 (((∅ : HashMap NodeId Nat).insert ⟨1⟩ 1).insert ⟨2⟩ 0)

/-- The leader commits the entry with a majority, as it always does in this cluster. -/
theorem commit_quorum_three :
    twoOfThree.tryAdvanceCommitIndex.commitIndex = 1 ∧ twoOfThree.CommitQuorum :=
  ⟨by decide,
    (commit_quorum_iff twoOfThree rfl (by decide)).2.mpr ⟨by decide, by decide⟩
      twoOfThree rfl rfl rfl rfl⟩

def twoOfFour : RaftNode :=
  leaderWith 4 ((((∅ : HashMap NodeId Nat).insert ⟨1⟩ 1).insert ⟨2⟩ 0).insert ⟨3⟩ 0)

/-- The leader commits the entry with two of four members. -/
theorem commit_quorum_four :
    twoOfFour.tryAdvanceCommitIndex.commitIndex = 1 ∧ twoOfFour.commitIndex = 0 ∧
      twoOfFour.holders 1 = 2 ∧ ¬ twoOfFour.CommitQuorum := by
  refine ⟨by decide, rfl, by decide, fun h => ?_⟩
  exact absurd (h 1 (by decide) (by decide)).1 (by decide)

end RaftNode

end Kaelix.Cluster.Raft
