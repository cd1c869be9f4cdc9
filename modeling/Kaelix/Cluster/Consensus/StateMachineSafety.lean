import Kaelix.Cluster.Consensus.CommitStability
import Kaelix.Cluster.Consensus.Completeness

/-!
# State machine safety

Given one leader per term, no two nodes ever have different entries at an index both have
committed.  Every committed part of a log is a prefix of one that is `Committed`, because a leader
advances only to an index that a majority has acknowledged and a follower copies both entries and
commit index from a leader; and any two committed prefixes are comparable.

The implementation counts the followers that have answered instead of the cluster, so one answer is
enough in a cluster of five.
-/

namespace Kaelix.Cluster.Raft

open Lib

namespace RaftNode

/-! ## The index a leader advances to -/

variable (a : RaftNode)

/-- How many recorded values reach `k`. -/
def reach (k : Nat) : Nat := a.replicas.countP fun x => decide (k ≤ x)

/-- Every index above the commit index that half of the recorded values reach,
rounded up, is reached by a majority of the cluster. -/
def QuorumBacked : Prop :=
  ∀ k, k ≤ a.log.length → a.commitIndex < k →
    a.replicas.length - a.replicas.length / 2 ≤ a.reach k → a.clusterSize < 2 * a.reach k

instance (a : RaftNode) : Decidable a.QuorumBacked :=
  inferInstanceAs (Decidable (∀ k, k ≤ a.log.length → _))

theorem le_reach_medianIndex :
    a.replicas.length - a.replicas.length / 2 ≤ a.reach a.medianIndex := by
  rw [reach, medianIndex_eq]
  exact upperMedian_le_countP (by simp [replicas])

private theorem exists_reaching {k : Nat} (hk : k ≤ a.log.length) :
    ∃ R : Finset NodeId, a.reach k = R.card + 1 ∧
      ∀ f ∈ R, ∃ x, a.matchIndex.lookup f = some x ∧ k ≤ x := by
  obtain ⟨R, hcard, hR⟩ := HashMap.exists_keys_of_countP a.matchIndex fun x => decide (k ≤ x)
  refine ⟨R, ?_, ?_⟩
  · rw [reach, replicas, List.countP_append, hcard]
    simp [hk]
  · intro f hf
    obtain ⟨x, hx, hle⟩ := hR f hf
    exact ⟨x, hx, of_decide_eq_true hle⟩

end RaftNode

namespace ClusterRun

open RaftCluster RaftNode

/-! ## The conditions -/

/-- A success that reaches a leader at step `i` leaves records whose median a
majority of the cluster backs. -/
def QuorumKnown (ρ : ClusterRun) (i : Nat) : Prop :=
  ∀ p ∈ (ρ.event i).delivered, ∀ response ∈ p.appendResponse,
    (ρ.node i p.dst).state = .leader →
    response.term ≤ (ρ.node i p.dst).currentTerm → response.success = true →
    ((ρ.node i p.dst).recordAck p.src response.lastLogIndex).QuorumBacked

instance (ρ : ClusterRun) (i : Nat) : Decidable (ρ.QuorumKnown i) :=
  inferInstanceAs (Decidable (∀ p ∈ (ρ.event i).delivered, ∀ response ∈ p.appendResponse, _))

/-- The conditions on step `i` under which commits are safe. -/
structure CommitConditions (ρ : ClusterRun) (i : Nat) : Prop where
  countsOnce : ρ.CountsOnce i
  neededWrite : ρ.NeededWrite i
  matchCleared : ρ.MatchCleared i
  freshSuccess : ρ.FreshSuccess i
  quorumKnown : ρ.QuorumKnown i

/-! ## The leader's commit -/

private theorem lastTerm_take {l : List LogEntry} {k : Nat} {e : LogEntry} (hk : 0 < k)
    (he : l[k - 1]? = some e) : lastTerm LogEntry.term (l.take k) = e.term := by
  have hlt := (List.getElem?_eq_some_iff.mp he).1
  have hlen : (l.take k).length = k := by
    rw [List.length_take]
    omega
  rw [lastTerm, List.getLast?_eq_getElem?, hlen, List.getElem?_take_of_lt (by omega), he]
  rfl

variable {ρ : ClusterRun} {i : Nat}

private theorem committed_of_advances (hinit : (ρ.state 0).Initial) (hi : i ≤ ρ.length) {n : NodeId}
    (hlead : (ρ.node i n).state = .leader) (hmat : ρ.Matched i n) {k : Nat}
    (hk : 0 < k) {e : LogEntry} (he : (ρ.node i n).entryAt k = some e)
    (hterm : e.term = (ρ.node i n).currentTerm)
    (hquo : (ρ.node i n).clusterSize < 2 * (ρ.node i n).reach k) :
    ρ.Committed (ρ.node i n).currentTerm ((ρ.node i n).log.take k) := by
  have hlt := (List.getElem?_eq_some_iff.mp he).1
  have hleads : ρ.Leads i n (ρ.node i n).currentTerm := ⟨hlead, rfl⟩
  obtain ⟨R, hcard, hR⟩ := (ρ.node i n).exists_reaching (show k ≤ _ by omega)
  have hacked : ∀ f ∈ R, ∃ x m, k ≤ x ∧ m ≤ i ∧
      ρ.Acked f n (ρ.node i n).currentTerm x m := by
    intro f hf
    obtain ⟨x, hx, hle⟩ := hR f hf
    rcases hmat f x hx with h0 | ⟨m, hm, hacked⟩
    · omega
    · exact ⟨x, m, hle, hm, hacked⟩
  have hnR : n ∉ R := by
    intro hmem
    obtain ⟨_, _, _, _, hacked⟩ := hacked n hmem
    exact hacked.ne rfl
  have hn := ρ.mem_ids_of_not_follower hinit n i hi (by rw [hlead]; simp)
  refine ⟨(lastTerm_take hk he).trans hterm, ⟨_, hleads.leaderLog.mono hi,
    List.take_prefix _ _⟩, insert n R, ⟨?_, ?_⟩, ?_⟩
  · refine Finset.insert_subset (List.mem_toFinset.mpr hn) ?_
    intro f hf
    obtain ⟨_, _, _, _, hacked⟩ := hacked f hf
    exact List.mem_toFinset.mpr hacked.mem
  · rw [Finset.card_insert_of_notMem hnR, List.toFinset_card_of_nodup hinit.1,
      ← ρ.clusterSize_eq hinit n i hi, ← hcard]
    exact hquo
  · intro v hv
    rcases Finset.mem_insert.mp hv with rfl | hv
    · exact ⟨i, hi, rfl, List.take_prefix _ _⟩
    · obtain ⟨x, m, hle, hm, hacked⟩ := hacked v hv
      have hpre := (hacked.le_length hm hi hleads).1
      refine ⟨m, by omega, hacked.term, ?_⟩
      refine List.prefix_of_prefix_length_le (List.take_prefix _ _) hpre ?_
      rw [List.length_take, hacked.length]
      omega

/-! ## Every commit index is backed -/

/-- The committed part of a log, `c` entries long, is a prefix of one that is
committed in a term up to `T`. -/
def CommitBacked (ρ : ClusterRun) (T c : Nat) (log : List LogEntry) : Prop :=
  c ≤ log.length ∧
    (c = 0 ∨ ∃ U P, U ≤ T ∧ ρ.Committed U P ∧ log.take c <+: P)

theorem CommitBacked.of_isPrefix {T U c : Nat} {log log' : List LogEntry}
    (h : ρ.CommitBacked T c log) (hTU : T ≤ U) (hlog : log.take c <+: log') :
    ρ.CommitBacked U c log' := by
  obtain ⟨hle, hback⟩ := h
  have hlen : (log.take c).length = c := by
    rw [List.length_take]
    omega
  refine ⟨hlen ▸ hlog.length_le, hback.imp_right ?_⟩
  rintro ⟨V, P, hV, hcom, hpre⟩
  refine ⟨V, P, hV.trans hTU, hcom, ?_⟩
  rw [List.prefix_iff_eq_take.mp hlog, hlen] at hpre
  exact hpre

variable (hinit : (ρ.state 0).Initial)
include hinit

variable (hsafe : ρ.ElectionSafe)
include hsafe

variable {p : Packet} {request : AppendEntriesRequest} {now j : Nat}

private theorem CommitBacked.keeps (hcond : ∀ i, i < ρ.length → ρ.CommitConditions i)
    (hi : i < ρ.length) (hacc : ρ.Accepts i p request now j)
    (hle : (ρ.node i p.dst).currentTerm ≤ request.term) {c : Nat}
    (h : ρ.CommitBacked (ρ.node i p.dst).currentTerm c (ρ.node i p.dst).log) :
    (ρ.node i p.dst).log.take c <+: ((ρ.node i p.dst).accepted request now).log := by
  have hneed := fun i hi => (hcond i hi).neededWrite
  have honce := fun i hi => (hcond i hi).countsOnce
  refine hacc.keeps _ (List.take_prefix _ _) ?_
  rcases h.2 with rfl | ⟨U, P, hU, hcom, hpre⟩
  · rw [List.take_zero]
    exact .inl List.nil_prefix
  · have hl : ρ.LeaderLog ρ.length request.term (ρ.node j p.src).log :=
      hacc.sent.leads.leaderLog.mono (by have := hacc.before; omega)
    exact Comparable.mono_left hpre
      (hcom.comparable_of_le hinit hsafe hneed honce (hU.trans hle) hl)

section

variable (hcond : ∀ i, i < ρ.length → ρ.CommitConditions i) (hi : i < ρ.length)
  (h : ∀ j, j ≤ i → ∀ n,
    ρ.CommitBacked (ρ.node j n).currentTerm (ρ.node j n).commitIndex (ρ.node j n).log)
include hcond hi h

private theorem commitBacked_accepted (hacc : ρ.Accepts i p request now j)
    (hle : (ρ.node i p.dst).currentTerm ≤ request.term) :
    ρ.CommitBacked request.term ((ρ.node i p.dst).accepted request now).commitIndex
      ((ρ.node i p.dst).accepted request now).log := by
  have hown := h i (Nat.le_refl i) p.dst
  rw [accepted_commitIndex]
  split
  · -- the new commit index is the sender's, inside a prefix of the sender's log
    rename_i hgt
    obtain ⟨_, hsrc⟩ := h j hacc.before.le p.src
    refine ⟨Nat.min_le_right _ _, .inr ?_⟩
    have hcm := hacc.sent.replicates.leaderCommit
    rw [← hcm] at hsrc
    rcases hsrc with h0 | ⟨U, P, hU, hcom, hpre⟩
    · omega
    · refine ⟨U, P, hU.trans hacc.sent.replicates.term.ge, hcom, ?_⟩
      refine List.IsPrefix.trans ?_ hpre
      refine List.prefix_take_iff.mpr ⟨?_, ?_⟩
      · rw [hacc.log_eq]
        exact (List.take_prefix _ _).trans (List.take_prefix _ _)
      · rw [List.length_take]
        omega
  · exact hown.of_isPrefix hle (CommitBacked.keeps hinit hsafe hcond hi hacc hle hown)

private theorem commitBacked_step (n : NodeId) :
    ρ.CommitBacked (ρ.node (i + 1) n).currentTerm (ρ.node (i + 1) n).commitIndex
      (ρ.node (i + 1) n).log := by
  rcases (ρ.change hi n).commitChange with ⟨hcm, hlog⟩ |
    ⟨p, now, request, he, hp, rfl, hm, hle, hcons, hb⟩ |
    ⟨p, now, response, he, rfl, hm, hlead, hterm, hsucc, hadv, hb⟩
  · rw [hcm]
    exact (h i (Nat.le_refl i) n).of_isPrefix (ρ.term_mono (Nat.le_succ i) hi n)
      ((List.take_prefix _ _).trans hlog)
  · obtain ⟨j, hacc⟩ := accepts hinit hsafe hi (hcond i hi).neededWrite he hp hm hle hcons
    rw [hb, accepted_currentTerm]
    exact commitBacked_accepted hinit hsafe hcond hi h hacc hle
  · have hquo := (hcond i hi).quorumKnown p (Event.mem_delivered.mpr ⟨now, he⟩) response
      (Packet.mem_appendResponse.mpr hm) hlead hterm hsucc
    have hinlog := hadv.medianIndex_le
    have hmany := hquo _ hinlog hadv.2.1 (le_reach_medianIndex _)
    obtain ⟨hstate, hgt, e, hent, heterm⟩ := hadv
    have hstate' : (ρ.node (i + 1) p.dst).state = .leader := by
      rw [hb]
      exact hstate
    have hmat := matched hinit hsafe (fun i hi => (hcond i hi).neededWrite.heartbeatCovers)
      (fun i hi => (hcond i hi).matchCleared) (fun i hi => (hcond i hi).freshSuccess)
      p.dst (i + 1) hi hstate'
    have hcom := committed_of_advances hinit hi hstate' hmat
      (k := (ρ.node (i + 1) p.dst).commitIndex) (e := e)
      (by rw [hb]; exact Nat.zero_lt_of_lt hgt) (by rw [hb]; exact hent)
      (by rw [hb]; exact heterm) (by rw [hb]; exact hmany)
    refine ⟨?_, .inr ⟨_, _, Nat.le_refl _, hcom, List.prefix_refl _⟩⟩
    rw [hb]
    exact hinlog

end

/-- A commit index covers committed entries only. -/
theorem commitBacked
    (hcond : ∀ i, i < ρ.length → ρ.CommitConditions i) (hi : i ≤ ρ.length) (n : NodeId) :
    ρ.CommitBacked (ρ.node i n).currentTerm (ρ.node i n).commitIndex (ρ.node i n).log := by
  refine ρ.strongInvariant (P := fun j => ∀ m, ρ.CommitBacked (ρ.node j m).currentTerm
    (ρ.node j m).commitIndex (ρ.node j m).log) ?_ ?_ i hi n
  · intro m
    obtain ⟨config, h0⟩ := ρ.node_zero hinit m
    rw [h0]
    exact ⟨Nat.zero_le _, .inl rfl⟩
  · intro k hk ih m
    exact commitBacked_step hinit hsafe hcond hk ih m

end ClusterRun

/-! ## State machine safety -/

/-- Two nodes that have committed an index, at any two moments, have the same
entry there. -/
def ClusterRun.CommitsAgree (ρ : ClusterRun) : Prop :=
  ∀ i, i ≤ ρ.length → ∀ j, j ≤ ρ.length →
    ∀ a ∈ (ρ.state 0).ids, ∀ b ∈ (ρ.state 0).ids, ∀ k, 1 ≤ k →
      k ≤ (ρ.node i a).commitIndex → k ≤ (ρ.node j b).commitIndex →
      ∃ x, (ρ.node i a).entryAt k = some x ∧ (ρ.node j b).entryAt k = some x

/-- State machine safety in every run with one leader per term whose steps meet
the conditions. -/
theorem commitsAgree_of_commitConditions (ρ : ClusterRun) (hinit : (ρ.state 0).Initial)
    (hsafe : ρ.ElectionSafe) (hcond : ∀ i, i < ρ.length → ρ.CommitConditions i) :
    ρ.CommitsAgree := by
  intro i hi j hj a _ b _ k hk hka hkb
  obtain ⟨hlena, h0 | ⟨T, P, _, hP, hprea⟩⟩ := ClusterRun.commitBacked hinit hsafe hcond hi a
  · omega
  obtain ⟨hlenb, h0 | ⟨U, R, _, hR, hpreb⟩⟩ := ClusterRun.commitBacked hinit hsafe hcond hj b
  · omega
  have hcomp := hP.comparable_committed hinit hsafe (fun i hi => (hcond i hi).neededWrite)
    (fun i hi => (hcond i hi).countsOnce) hR
  have hcomp' := Comparable.mono_left hprea (Comparable.mono_left hpreb hcomp.symm).symm
  have hread : ∀ (l : List LogEntry) (c : Nat), k ≤ c → l[k - 1]? = (l.take c)[k - 1]? := by
    intro l c hc
    rw [List.getElem?_take_of_lt (by omega)]
  obtain ⟨x, hx⟩ : ∃ x, (ρ.node i a).log[k - 1]? = some x :=
    ⟨_, List.getElem?_eq_getElem (by omega)⟩
  refine ⟨x, hx, ?_⟩
  show (ρ.node j b).log[k - 1]? = some x
  rw [hread _ _ hkb, ← hcomp'.getElem? (by rw [List.length_take]; omega)
    (by rw [List.length_take]; omega), ← hread _ _ hka]
  exact hx

private theorem replication_commitConditions :
    ∀ i, i < replicationRun.length → replicationRun.CommitConditions i := by
  have hneed : ∀ i, i < replicationRun.length → replicationRun.NeededWrite i := by decide
  have hmatch : ∀ i, i < replicationRun.length → replicationRun.MatchCleared i := by decide
  have hfresh : ∀ i, i < replicationRun.length → replicationRun.FreshSuccess i := by decide
  have hquo : ∀ i, i < replicationRun.length → replicationRun.QuorumKnown i := by decide
  have honce := replicationRun.countsOnce_of_no_duplicate trio_initial (by decide)
  exact fun i hi => ⟨honce i hi, hneed i hi, hmatch i hi, hfresh i hi, hquo i hi⟩

theorem commitsAgree_replication :
    (replicationRun.node 7 nodeA).commitIndex = 1 ∧ replicationRun.CommitsAgree :=
  ⟨by decide, commitsAgree_of_commitConditions replicationRun trio_initial
    (ClusterRun.electionSafe_of_voteRemembered trio_initial (by decide) (by decide))
    replication_commitConditions⟩

/-! ### Five nodes -/

def nodeD : NodeId := ⟨4⟩
def nodeE : NodeId := ⟨5⟩

/-- Five new nodes. -/
def quintet : RaftCluster := .init [nodeA, nodeB, nodeC, nodeD, nodeE] fun _ => .default

private theorem quintet_initial : quintet.Initial := ⟨by decide, _, rfl⟩

def otherEntry : LogEntry := .new 2 1 [8] ⟨0⟩

/-- `A`, elected by `B` and `C`, commits its entry when `B` alone has stored it.
`C`, elected by `D` and `E` in term 2, commits another entry when `D` alone has. -/
def twoAnswers : List Event :=
  [.startElection nodeA 0, .deliver (ballot nodeA nodeB 1) 0,
   .deliver (ballot nodeA nodeC 1) 0, .deliver (grant nodeB nodeA 1) 0,
   .deliver (grant nodeC nodeA 1) 0, .appendEntry nodeA [7] ⟨0⟩,
   .createAppendEntries nodeA nodeB 1,
   .deliver (wholeLog nodeA nodeB 1 [firstEntry] 0 1) 0, .deliver (ack nodeB nodeA 1 1 1) 0,
   .startElection nodeC 0, .deliver (ballot nodeC nodeD 2) 0,
   .deliver (ballot nodeC nodeE 2) 0, .deliver (grant nodeD nodeC 2) 0,
   .deliver (grant nodeE nodeC 2) 0, .appendEntry nodeC [8] ⟨0⟩,
   .createAppendEntries nodeC nodeD 2,
   .deliver (wholeLog nodeC nodeD 2 [otherEntry] 0 2) 0, .deliver (ack nodeD nodeC 2 1 2) 0]

def twoAnswersRun : ClusterRun := Run.ofEvents RaftCluster.step quintet twoAnswers (by decide)

/-- Without the conditions two nodes commit different entries at one index. -/
theorem commitsAgree_fails : ¬ ∀ ρ : ClusterRun, (ρ.state 0).Initial → ρ.ElectionSafe →
    ρ.CommitsAgree := by
  intro h
  have hsafe : twoAnswersRun.ElectionSafe :=
    ClusterRun.electionSafe_of_voteRemembered quintet_initial (by decide) (by decide)
  obtain ⟨x, hx, hx'⟩ := h twoAnswersRun quintet_initial hsafe 18 (Nat.le_refl 18)
    18 (Nat.le_refl 18) nodeA (by decide) nodeC (by decide) 1 (by decide) (by decide)
    (by decide)
  have hA : (twoAnswersRun.node 18 nodeA).entryAt 1 = some firstEntry := by decide
  have hC : (twoAnswersRun.node 18 nodeC).entryAt 1 = some otherEntry := by decide
  have heq := (hA.symm.trans hx).trans (hx'.symm.trans hC)
  exact absurd heq (by decide)

end Kaelix.Cluster.Raft
