import Kaelix.Cluster.Consensus.Network
import Mathlib.Data.Prod.Lex

/-!
# What a node never does along a run

Facts about one node at two moments of a run, whatever the network does in
between.  Its identity and the cluster size are fixed and its term never falls.
Inside one term a node moves from candidate to leader to follower and never back,
so it leads a term during one interval, and during that interval it only appends
to its log.
-/

namespace Kaelix.Cluster.Raft

open Lib

variable {b : RaftNode}

namespace RaftNode

/-- The order of the states within a term. -/
def phase : ConsensusState → Nat
  | .candidate => 0
  | .leader => 1
  | .follower => 2

variable {a : RaftNode}

theorem Outcome.static (h : Outcome a b) :
    b.nodeId = a.nodeId ∧ b.clusterSize = a.clusterSize ∧ b.config = a.config := by
  cases h with
  | campaign | follow | count | win | hear | append => exact ⟨rfl, rfl, rfl⟩
  | vote request now hterm =>
    rcases caughtUp_cases hterm with ⟨_, hcu⟩ | ⟨_, hcu⟩ <;>
      rw [hcu] <;> exact ⟨rfl, rfl, rfl⟩
  | accept =>
    rw [accepted, followCommit_eq, storeEntries_eq]
    exact ⟨rfl, rfl, rfl⟩
  | acknowledge =>
    rw [tryAdvanceCommitIndex_eq, recordAck_eq]
    exact ⟨rfl, rfl, rfl⟩
  | conflict =>
    rw [handleLogConflict_eq]
    exact ⟨rfl, rfl, rfl⟩
  | apply =>
    rw [applyCommittedEntries_eq]
    exact ⟨rfl, rfl, rfl⟩

theorem Outcome.term_phase (h : Outcome a b) :
    a.currentTerm < b.currentTerm ∨
      (a.currentTerm = b.currentTerm ∧ phase a.state ≤ phase b.state) := by
  cases h with
  | campaign => exact .inl (Nat.lt_succ_self _)
  | follow term hterm =>
    rcases Nat.lt_or_eq_of_le hterm with hlt | heq
    · exact .inl hlt
    · exact .inr ⟨heq, by cases a.state <;> simp [phase, followed]⟩
  | vote request now hterm =>
    rcases caughtUp_cases hterm with ⟨_, hcu⟩ | ⟨hlt, hcu⟩ <;> rw [hcu]
    · exact .inr ⟨rfl, Nat.le_refl _⟩
    · exact .inl hlt
  | count | append => exact .inr ⟨rfl, Nat.le_refl _⟩
  | win now hstate => exact .inr ⟨rfl, by rw [hstate]; simp [phase]⟩
  | hear request now hterm =>
    rcases Nat.lt_or_eq_of_le hterm with hlt | heq
    · exact .inl hlt
    · exact .inr ⟨heq, by cases a.state <;> simp [phase, heard, followed]⟩
  | accept request now hterm =>
    rw [accepted, followCommit_eq, storeEntries_eq]
    rcases Nat.lt_or_eq_of_le hterm with hlt | heq
    · exact .inl hlt
    · exact .inr ⟨heq, by cases a.state <;> simp [phase, heard, followed]⟩
  | acknowledge =>
    rw [tryAdvanceCommitIndex_eq, recordAck_eq]
    exact .inr ⟨rfl, Nat.le_refl _⟩
  | conflict =>
    rw [handleLogConflict_eq]
    exact .inr ⟨rfl, Nat.le_refl _⟩
  | apply =>
    rw [applyCommittedEntries_eq]
    exact .inr ⟨rfl, Nat.le_refl _⟩

theorem Outcome.log_prefix (h : Outcome a b) (hb : b.state ≠ .follower) : a.log <+: b.log := by
  cases h with
  | campaign | count | win => exact List.prefix_refl _
  | follow | hear => exact absurd rfl hb
  | vote request now hterm =>
    rcases caughtUp_cases hterm with ⟨_, hcu⟩ | ⟨hlt, hcu⟩ <;> rw [hcu]
    · exact List.prefix_refl _
    · exact List.prefix_refl _
  | accept =>
    rw [accepted, followCommit_eq, storeEntries_eq] at hb
    exact absurd rfl hb
  | acknowledge =>
    rw [tryAdvanceCommitIndex_eq, recordAck_eq]
  | conflict => rw [handleLogConflict_eq]
  | append => exact List.prefix_append _ _
  | apply => rw [applyCommittedEntries_eq]

end RaftNode

variable {n : NodeId}

namespace RaftCluster

open RaftNode

variable {s : RaftCluster} {e : Event}

theorem Transition.ids_eq {s' : RaftCluster} (h : Transition s e s') : s'.ids = s.ids := by
  cases h <;> rfl

theorem Change.outcome (h : Change s e n b) : b = s.node n ∨ Outcome (s.node n) b := by
  cases h with
  | same => exact .inl rfl
  | campaign => exact .inr (.campaign _)
  | append he hn hstate => exact .inr (.append _ _ hstate)
  | apply => exact .inr (.apply _)
  | follow hterm => exact .inr (.follow _ hterm.le)
  | vote he hp hdst hm hterm hgrant => exact .inr (.vote _ _ hterm hgrant)
  | count he hp hdst hm hcnt hfew => exact .inr (.count hcnt.1 hfew)
  | win he hp hdst hm hcnt hmany => exact .inr (.win _ hcnt.1 hmany)
  | hear he hp hdst hm hterm hcons => exact .inr (.hear _ _ hterm hcons)
  | accept he hp hdst hm hterm hcons => exact .inr (.accept _ _ hterm hcons)
  | acknowledge he hp hdst hm hstate =>
    exact .inr (.acknowledge _ _ hstate)
  | conflict he hp hdst hm hstate => exact .inr (.conflict _ _ hstate)

end RaftCluster

/-! ## One node at two moments -/

/-- A run of the cluster. -/
abbrev ClusterRun := Run RaftCluster.step

namespace ClusterRun

open RaftCluster RaftNode

variable (ρ : ClusterRun)

/-- The node `n` at moment `i`. -/
def node (i : Nat) (n : NodeId) : RaftNode := (ρ.state i).node n

/-- At moment `i` the node `n` leads term `T`. -/
def Leads (i : Nat) (n : NodeId) (T : Nat) : Prop :=
  (ρ.node i n).state = .leader ∧ (ρ.node i n).currentTerm = T

variable {i : Nat}

theorem transition (hi : i < ρ.length) : Transition (ρ.state i) (ρ.event i) (ρ.state (i + 1)) :=
  step_transition (ρ.step_eq i hi)

theorem change (hi : i < ρ.length) (n : NodeId) :
    Change (ρ.state i) (ρ.event i) n (ρ.node (i + 1) n) :=
  (ρ.transition hi).change n

theorem outcome (hi : i < ρ.length) (n : NodeId) :
    ρ.node (i + 1) n = ρ.node i n ∨ Outcome (ρ.node i n) (ρ.node (i + 1) n) :=
  (ρ.change hi n).outcome

theorem ids_eq : ∀ i, i ≤ ρ.length → (ρ.state i).ids = (ρ.state 0).ids := by
  refine ρ.invariant rfl ?_
  intro i hi ih
  rw [(ρ.transition hi).ids_eq, ih]

section

variable (hinit : (ρ.state 0).Initial)
include hinit

theorem node_zero (n : NodeId) :
    ∃ config, ρ.node 0 n = RaftNode.new n (ρ.state 0).ids.length config := by
  obtain ⟨_, config, hs⟩ := hinit
  exact ⟨config n, by rw [node, hs]; rfl⟩

theorem nodeId_eq (n : NodeId) : ∀ i, i ≤ ρ.length → (ρ.node i n).nodeId = n := by
  refine ρ.invariant ?_ ?_
  · obtain ⟨config, h0⟩ := ρ.node_zero hinit n
    rw [h0]
    rfl
  · intro i hi ih
    rcases ρ.outcome hi n with heq | hout
    · rw [heq, ih]
    · rw [hout.static.1, ih]

theorem clusterSize_eq (n : NodeId) :
    ∀ i, i ≤ ρ.length → (ρ.node i n).clusterSize = (ρ.state 0).ids.length := by
  refine ρ.invariant ?_ ?_
  · obtain ⟨config, h0⟩ := ρ.node_zero hinit n
    rw [h0]
    rfl
  · intro i hi ih
    rcases ρ.outcome hi n with heq | hout
    · rw [heq, ih]
    · rw [hout.static.2.1, ih]

theorem origin :
    ∀ i, i ≤ ρ.length → ∀ p ∈ (ρ.state i).net,
      ∃ j, j < i ∧ Sent (ρ.state j) (ρ.event j) (ρ.state (j + 1)) p := by
  refine ρ.invariant ?_ ?_
  · intro p hp
    obtain ⟨_, config, hs⟩ := hinit
    rw [hs] at hp
    cases hp
  · intro i hi ih p hp
    rcases (ρ.transition hi).sent hp with hold | hsent
    · obtain ⟨j, hj, hsent⟩ := ih p hold
      exact ⟨j, by omega, hsent⟩
    · exact ⟨i, Nat.lt_succ_self i, hsent⟩

end

private theorem term_phase_step (hi : i < ρ.length) (n : NodeId) :
    toLex ((ρ.node i n).currentTerm, phase (ρ.node i n).state) ≤
      toLex ((ρ.node (i + 1) n).currentTerm, phase (ρ.node (i + 1) n).state) := by
  rw [Prod.Lex.toLex_le_toLex]
  rcases ρ.outcome hi n with heq | hout
  · rw [heq]
    exact .inr ⟨rfl, le_refl _⟩
  · exact hout.term_phase

theorem term_phase_le {j : Nat} (hij : i ≤ j) (hj : j ≤ ρ.length) (n : NodeId) :
    (ρ.node i n).currentTerm < (ρ.node j n).currentTerm ∨
      ((ρ.node i n).currentTerm = (ρ.node j n).currentTerm ∧
        phase (ρ.node i n).state ≤ phase (ρ.node j n).state) := by
  have h := ρ.monotone
    (fun s => toLex ((s.node n).currentTerm, phase (s.node n).state))
    (fun i hi => ρ.term_phase_step hi n) hij hj
  exact Prod.Lex.toLex_le_toLex.mp h

theorem term_mono {j : Nat} (hij : i ≤ j) (hj : j ≤ ρ.length) (n : NodeId) :
    (ρ.node i n).currentTerm ≤ (ρ.node j n).currentTerm := by
  rcases ρ.term_phase_le hij hj n with h | h <;> omega

variable {ρ : ClusterRun} {k T : Nat}

theorem Leads.between {j : Nat} (hi : ρ.Leads i n T) (hk : ρ.Leads k n T) (hij : i ≤ j)
    (hjk : j ≤ k) (hklen : k ≤ ρ.length) : ρ.Leads j n T := by
  obtain ⟨histate, hiterm⟩ := hi
  obtain ⟨hkstate, hkterm⟩ := hk
  have h₁ := ρ.term_phase_le hij (by omega) n
  have h₂ := ρ.term_phase_le hjk hklen n
  have hterm : (ρ.node j n).currentTerm = T := by omega
  have hphase : phase (ρ.node j n).state = 1 := by
    have hlead : phase .leader = 1 := rfl
    rw [histate, hlead] at h₁
    rw [hkstate, hlead] at h₂
    omega
  refine ⟨?_, hterm⟩
  cases hstate : (ρ.node j n).state <;> simp [hstate, phase] at hphase ⊢

theorem log_prefix_of_not_follower (hterm : (ρ.node i n).currentTerm = (ρ.node k n).currentTerm)
    (hk : (ρ.node k n).state ≠ .follower) (hik : i ≤ k) (hklen : k ≤ ρ.length) :
    (ρ.node i n).log <+: (ρ.node k n).log := by
  have hphase : phase (ρ.node k n).state ≤ 1 := by
    cases hstate : (ρ.node k n).state <;> simp [hstate, phase] at hk ⊢
  have key : ∀ d, i + d ≤ k → (ρ.node i n).log <+: (ρ.node (i + d) n).log := by
    intro d
    induction d with
    | zero => intro _; exact List.prefix_refl _
    | succ d ih =>
      intro hd
      refine (ih (by omega)).trans ?_
      rcases ρ.outcome (show i + d < ρ.length by omega) n with heq | hout
      · show _ <+: (ρ.node (i + d + 1) n).log
        rw [heq]
      · refine hout.log_prefix ?_
        intro hfol
        have h₁ := ρ.term_phase_le (show i ≤ i + d + 1 by omega) (by omega) n
        have h₂ := ρ.term_phase_le (show i + d + 1 ≤ k by omega) hklen n
        have htwo : phase .follower = 2 := rfl
        rw [hfol, htwo] at h₂
        omega
  have := key (k - i) (by omega)
  rwa [show i + (k - i) = k by omega] at this

theorem Leads.log_prefix (hi : ρ.Leads i n T) (hk : ρ.Leads k n T) (hik : i ≤ k)
    (hklen : k ≤ ρ.length) : (ρ.node i n).log <+: (ρ.node k n).log :=
  ρ.log_prefix_of_not_follower (hi.2.trans hk.2.symm) (by rw [hk.1]; simp) hik hklen

end ClusterRun

end Kaelix.Cluster.Raft
