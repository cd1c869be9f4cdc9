import Kaelix.Cluster.Consensus.Repair
import Kaelix.Cluster.Consensus.StateMachineSafety

/-!
# Leaders and committed entries over a whole run

A leader never removes or overwrites an entry, whatever the network does (`leader_appends_only`).
Under the conditions of state machine safety a committed entry is never lost: the node that has
committed it keeps it (`commit_durable`), and every leader of a later term has it
(`leader_complete`).
-/

namespace Kaelix.Cluster.Raft

open Lib

namespace ClusterRun

/-- From its election on, as long as it leads the term, a leader only appends to its log. -/
theorem leader_appends_only (ρ : ClusterRun) {n : NodeId} {T i j k : Nat} (hi : ρ.Leads i n T)
    (hk : ρ.Leads k n T) (hij : i ≤ j) (hjk : j ≤ k) (hklen : k ≤ ρ.length) :
    ρ.Leads j n T ∧ (ρ.node i n).log <+: (ρ.node j n).log ∧
      (ρ.node j n).log <+: (ρ.node k n).log := by
  have hj := hi.between hk hij hjk hklen
  exact ⟨hj, hi.log_prefix hj hij (hjk.trans hklen), hj.log_prefix hk hjk hklen⟩

/-- The entries of a node's log up to its commit index. -/
def committedLog (ρ : ClusterRun) (i : Nat) (n : NodeId) : List LogEntry :=
  (ρ.node i n).log.take (ρ.node i n).commitIndex

section Conditions

variable {ρ : ClusterRun} (hinit : (ρ.state 0).Initial) (hsafe : ρ.ElectionSafe)
  (hcond : ∀ i, i < ρ.length → ρ.CommitConditions i)
include hinit hsafe hcond

private theorem committedLog_comparable {i T : Nat} {n : NodeId} {l : List LogEntry}
    (hi : i ≤ ρ.length)
    (hT : (ρ.node i n).currentTerm ≤ T) (hl : ρ.LeaderLog ρ.length T l) :
    Comparable (ρ.committedLog i n) l := by
  cases (commitBacked hinit hsafe hcond hi n).2 with
  | inl hzero =>
    rw [committedLog, hzero]
    exact .inl List.nil_prefix
  | inr hback =>
    obtain ⟨U, P, hU, hcom, hpre⟩ := hback
    exact Comparable.mono_left hpre (hcom.comparable_of_le hinit hsafe
      (fun i hi => (hcond i hi).neededWrite) (fun i hi => (hcond i hi).countsOnce)
      (hU.trans hT) hl)

private theorem committedLog_persists {i j : Nat} (hij : i ≤ j) (hj : j ≤ ρ.length) (n : NodeId) :
    ρ.committedLog i n <+: (ρ.node j n).log := by
  refine prefix_persists hinit hsafe (fun i hi => (hcond i hi).neededWrite) hij hj
    (List.take_prefix _ _) ?_
  intro T l hT _ hl
  exact committedLog_comparable hinit hsafe hcond (hij.trans hj) hT (hl.mono hj)

private theorem commitIndex_step {i : Nat} (hi : i < ρ.length) (n : NodeId) :
    (ρ.node i n).commitIndex ≤ (ρ.node (i + 1) n).commitIndex := by
  rcases (ρ.change hi n).commitChange with ⟨hcm, _⟩ |
    ⟨p, now, request, -, -, rfl, -, -, -, hb⟩ | ⟨p, now, response, -, rfl, -, -, -, -, hadv, hb⟩
  · exact hcm.ge
  · -- the request may cut the log, but not below what is committed
    have hkept :=
      (committedLog_persists hinit hsafe hcond (Nat.le_add_right i 1) hi p.dst).length_le
    have hlen := (commitBacked hinit hsafe hcond hi.le p.dst).1
    rw [committedLog, List.length_take, Nat.min_eq_left hlen] at hkept
    have hcm := RaftNode.accepted_commitIndex (ρ.node i p.dst) request now
    rw [← show ρ.node (i + 1) p.dst = (ρ.node i p.dst).accepted request now from hb] at hcm
    rw [hcm]
    split <;> omega
  · have hsame : ((ρ.node i p.dst).recordAck p.src response.lastLogIndex).commitIndex =
        (ρ.node i p.dst).commitIndex := by rw [RaftNode.recordAck_eq]
    rw [hb]
    exact hsame.ge.trans hadv.2.1.le

end Conditions

/-- A node never lowers its commit index, and never changes an entry at or below it. -/
theorem commit_durable (ρ : ClusterRun) (hinit : (ρ.state 0).Initial) (hsafe : ρ.ElectionSafe)
    (hcond : ∀ i, i < ρ.length → ρ.CommitConditions i) {i j : Nat} (hij : i ≤ j)
    (hj : j ≤ ρ.length) (n : NodeId) :
    (ρ.node i n).commitIndex ≤ (ρ.node j n).commitIndex ∧
      ρ.committedLog i n <+: ρ.committedLog j n := by
  have hmono : (ρ.node i n).commitIndex ≤ (ρ.node j n).commitIndex := by
    induction j, hij using Nat.le_induction with
    | base => exact le_rfl
    | succ j hij ih =>
      exact (ih (by omega)).trans (commitIndex_step hinit hsafe hcond hj n)
  refine ⟨hmono, List.prefix_take_iff.mpr ⟨committedLog_persists hinit hsafe hcond hij hj n, ?_⟩⟩
  rw [committedLog, List.length_take]
  omega

/-- What a node has committed in some term is in the log of every leader of a later term. -/
theorem leader_complete (ρ : ClusterRun) (hinit : (ρ.state 0).Initial) (hsafe : ρ.ElectionSafe)
    (hcond : ∀ i, i < ρ.length → ρ.CommitConditions i) {i j T : Nat} {n m : NodeId}
    (hi : i ≤ ρ.length) (hj : j ≤ ρ.length) (hlead : ρ.Leads j m T)
    (hT : (ρ.node i n).currentTerm < T) : ρ.committedLog i n <+: (ρ.node j m).log := by
  cases (commitBacked hinit hsafe hcond hi n).2 with
  | inl hzero =>
    rw [committedLog, hzero]
    exact List.nil_prefix
  | inr hback =>
    obtain ⟨U, P, hU, hcom, hpre⟩ := hback
    exact hpre.trans (hcom.prefix_of_leads hinit hsafe (fun i hi => (hcond i hi).neededWrite)
      (fun i hi => (hcond i hi).countsOnce) T (by omega) _ (hlead.leaderLog.mono hj))

end ClusterRun

/-! ### A new leader after a commit -/

/-- `A` commits an entry that `B` has stored.  Then `C` elects `B` in term 2. -/
def succession : List Event :=
  replication ++ [.startElection nodeB 0,
    .deliver ⟨nodeB, nodeC, .voteRequest ⟨2, nodeB, 1, 1, false⟩⟩ 0,
    .deliver (grant nodeC nodeB 2) 0]

def successionRun : ClusterRun := Run.ofEvents RaftCluster.step trio succession (by decide)

theorem succession_electionSafe : successionRun.ElectionSafe :=
  ClusterRun.electionSafe_of_voteRemembered trio_initial (by decide) (by decide)

theorem succession_commitConditions :
    ∀ i, i < successionRun.length → successionRun.CommitConditions i := by
  have hneed : ∀ i, i < successionRun.length → successionRun.NeededWrite i := by decide
  have hmatch : ∀ i, i < successionRun.length → successionRun.MatchCleared i := by decide
  have hfresh : ∀ i, i < successionRun.length → successionRun.FreshSuccess i := by decide
  have hquo : ∀ i, i < successionRun.length → successionRun.QuorumKnown i := by decide
  have honce := successionRun.countsOnce_of_no_duplicate trio_initial (by decide)
  exact fun i hi => ⟨honce i hi, hneed i hi, hmatch i hi, hfresh i hi, hquo i hi⟩

theorem leader_appends_only_succession : successionRun.Leads 5 nodeA 1 ∧
    (successionRun.node 3 nodeA).log <+: (successionRun.node 5 nodeA).log ∧
      (successionRun.node 5 nodeA).log <+: (successionRun.node 10 nodeA).log :=
  successionRun.leader_appends_only ⟨by decide, by decide⟩ ⟨by decide, by decide⟩ (by decide)
    (by decide) (by decide)

theorem commit_durable_succession : successionRun.committedLog 7 nodeA = [firstEntry] ∧
    (successionRun.node 7 nodeA).commitIndex ≤ (successionRun.node 10 nodeA).commitIndex ∧
      successionRun.committedLog 7 nodeA <+: successionRun.committedLog 10 nodeA :=
  ⟨by decide, successionRun.commit_durable trio_initial succession_electionSafe
    succession_commitConditions (by decide) (by decide) nodeA⟩

theorem leader_complete_succession : successionRun.committedLog 7 nodeA = [firstEntry] ∧
    successionRun.committedLog 7 nodeA <+: (successionRun.node 10 nodeB).log :=
  ⟨by decide, successionRun.leader_complete trio_initial succession_electionSafe
    succession_commitConditions (by decide) (by decide) (T := 2) ⟨by decide, by decide⟩ (by decide)⟩

end Kaelix.Cluster.Raft
