import Kaelix.Lib.History
import Kaelix.Cluster.Consensus.Operations

/-!
# Counting votes

A candidate counts the responses it receives, not the voters.  A response carries no voter, so a
second copy of it is one more vote, and `handle_vote_response` does not look at `pre_vote`, so a
pre-vote is a vote.
-/

namespace Kaelix.Cluster.Raft

open Lib

/-- The member that the call shows to have granted a real vote in `term`. -/
def NodeOp.realVote (term : Nat) : NodeOp → Finset NodeId
  | .handleVoteResponse voter response _ =>
    if response.term = term ∧ response.voteGranted = true ∧ response.preVote = false then
      {voter}
    else ∅
  | _ => ∅

/-- A node, and the members that have granted it a real vote in its current term as far
as responses have shown; itself from `start_election` on. -/
structure Canvass where
  node : RaftNode
  votes : Finset NodeId

namespace Canvass

variable (a : RaftNode)

def stand (now : Nat) : Canvass := ⟨(a.startElection now).1, {a.nodeId}⟩

/-- One call on the node.  Votes of another term do not count for the new one. -/
def step (s : Canvass) (op : NodeOp) : Canvass :=
  { node := s.node.perform op
    votes :=
      match op with
      | .startElection _ => {s.node.nodeId}
      | op =>
        if (s.node.perform op).currentTerm = s.node.currentTerm then
          s.votes ∪ op.realVote s.node.currentTerm
        else ∅ }

/-- `vote_count` is at most the number of members with real votes, and a leader has the
real votes of more than half of the cluster. -/
structure Backed (s : Canvass) : Prop where
  count : s.node.voteCount ≤ s.votes.card
  leader : s.node.state = .leader → s.node.clusterSize < 2 * s.votes.card

/-- The call counts only a real vote of a member not yet counted, and makes the node
leader only with a majority. -/
def Genuine (s : Canvass) : NodeOp → Prop
  | .handleVoteResponse voter response _ =>
    s.node.CountsVote response → response.preVote = false ∧ voter ∉ s.votes
  | .becomeLeader _ =>
    s.node.state = .candidate → s.node.clusterSize < 2 * s.votes.card
  | _ => True

/-- A candidate has counted all its votes. -/
def Counted (s : Canvass) : Prop := s.node.state = .candidate → s.votes.card ≤ s.node.voteCount

variable {s : Canvass} {op : NodeOp}

theorem backed_stand (now : Nat) : (stand a now).Backed :=
  ⟨Nat.le_refl 1, fun h => nomatch h⟩

theorem counted_stand (now : Nat) : (stand a now).Counted := fun _ => Nat.le_refl 1

theorem votes_step (hop : ∀ now, op ≠ .startElection now)
    (hterm : (s.step op).node.currentTerm = s.node.currentTerm) :
    (s.step op).votes = s.votes ∪ op.realVote s.node.currentTerm := by
  cases op with
  | startElection now => exact absurd rfl (hop now)
  | _ => exact if_pos hterm

/-! ## Calls that count no vote -/

/-- A call that keeps the node's standing, adds votes of the term only, and none to a
candidate. -/
structure Quiet (s : Canvass) (op : NodeOp) : Prop where
  keeps : RaftNode.KeepsStanding s.node (s.step op).node
  subset : (s.step op).node.currentTerm = s.node.currentTerm → s.votes ⊆ (s.step op).votes
  eq : (s.step op).node.currentTerm = s.node.currentTerm → s.node.state = .candidate →
    (s.step op).votes = s.votes
  genuine : s.Genuine op

theorem Quiet.backed (hq : s.Quiet op) (h : s.Backed) : (s.step op).Backed := by
  rcases hq.keeps.standing with ⟨hterm, hstate, hcnt⟩ | ⟨hstate, hcnt⟩
  · have hcard := Finset.card_le_card (hq.subset hterm)
    refine ⟨?_, fun hlead => ?_⟩
    · rw [hcnt]
      exact h.count.trans hcard
    · have := h.leader (hstate ▸ hlead)
      rw [hq.keeps.clusterSize]
      omega
  · refine ⟨by omega, fun hlead => ?_⟩
    rw [hstate] at hlead
    cases hlead

theorem Quiet.counted (hq : s.Quiet op) (h : s.Counted) : (s.step op).Counted := by
  intro hcand
  rcases hq.keeps.standing with ⟨hterm, hstate, hcnt⟩ | ⟨hstate, hcnt⟩
  · rw [hq.eq hterm (hstate ▸ hcand), hcnt]
    exact h (hstate ▸ hcand)
  · rw [hstate] at hcand
    cases hcand

theorem Quiet.of_keepsStanding (hop : ∀ now, op ≠ .startElection now)
    (hkeep : RaftNode.KeepsStanding s.node (s.node.perform op))
    (hnone : s.node.state = .candidate → op.realVote s.node.currentTerm = ∅)
    (hgen : s.Genuine op) : s.Quiet op where
  keeps := hkeep
  subset hterm := by
    rw [votes_step hop hterm]
    exact Finset.subset_union_left
  eq hterm hcand := by rw [votes_step hop hterm, hnone hcand, Finset.union_empty]
  genuine := hgen

/-- Every call starts an election, counts a response, makes a candidate the leader, or is
quiet. -/
theorem step_cases (s : Canvass) (op : NodeOp) :
    (∃ now, op = .startElection now) ∨
      (∃ voter response now, op = .handleVoteResponse voter response now ∧
        s.node.CountsVote response) ∨
      (∃ now, op = .becomeLeader now ∧ s.node.state = .candidate) ∨ s.Quiet op := by
  cases op with
  | startElection now => exact .inl ⟨now, rfl⟩
  | handleVoteResponse voter response now =>
    by_cases hcnt : s.node.CountsVote response
    · exact .inr (.inl ⟨voter, response, now, rfl, hcnt⟩)
    · refine .inr (.inr (.inr (.of_keepsStanding (by intro _ h; cases h) ?_ ?_
        fun h => absurd h hcnt)))
      · by_cases hnewer : s.node.state = .candidate ∧ response.term > s.node.currentTerm
        · rw [RaftNode.perform, RaftNode.handleVoteResponse_newer now hnewer.1 hnewer.2]
          exact .followed _ _
        · rw [RaftNode.perform, RaftNode.handleVoteResponse_ignored now hcnt hnewer]
          exact .refl _
      · intro hcand
        exact if_neg fun h => hcnt ⟨hcand, h.1, h.2.1⟩
  | becomeLeader now =>
    by_cases hcand : s.node.state = .candidate
    · exact .inr (.inr (.inl ⟨now, rfl, hcand⟩))
    · refine .inr (.inr (.inr (.of_keepsStanding (by intro _ h; cases h) ?_ (fun _ => rfl)
        fun h => absurd h hcand)))
      rw [RaftNode.perform, RaftNode.becomeLeader, if_pos (by simpa using hcand)]
      exact .refl _
  | _ =>
    exact .inr (.inr (.inr (.of_keepsStanding (by intro _ h; cases h)
      (s.node.keepsStanding_perform rfl) (fun _ => rfl) trivial)))

/-! ## A counted response -/

/-- What counting a response does: one more vote in the same term, and the lead if that
makes a majority of `vote_count`. -/
structure CountsOne (a b : RaftNode) : Prop where
  voteCount : b.voteCount = a.voteCount + 1
  currentTerm : b.currentTerm = a.currentTerm
  clusterSize : b.clusterSize = a.clusterSize
  leader : b.state = .leader → a.clusterSize < 2 * b.voteCount

variable {response : RequestVoteResponse}

theorem countsOne_of_countsVote {a : RaftNode}
    (voter : NodeId) (now : Nat) (h : a.CountsVote response) :
    CountsOne a (a.perform (.handleVoteResponse voter response now)) := by
  rw [RaftNode.perform, RaftNode.handleVoteResponse_counted now h]
  split
  · exact ⟨rfl, rfl, rfl, fun hlead => nomatch h.1.symm.trans hlead⟩
  · refine ⟨rfl, rfl, rfl, fun _ => ?_⟩
    change a.clusterSize < 2 * (a.voteCount + 1)
    omega

private theorem votes_counted (voter : NodeId) (now : Nat) (h : s.node.CountsVote response) :
    (s.step (.handleVoteResponse voter response now)).votes =
      if response.preVote = false then insert voter s.votes else s.votes := by
  have hterm : (s.step (.handleVoteResponse voter response now)).node.currentTerm =
      s.node.currentTerm := (countsOne_of_countsVote voter now h).currentTerm
  rw [votes_step (by intro _ h; cases h) hterm, NodeOp.realVote]
  by_cases hreal : response.preVote = false
  · rw [if_pos hreal, if_pos ⟨h.2.1, h.2.2, hreal⟩, Finset.union_comm]
    rfl
  · rw [if_neg hreal, if_neg fun h' => hreal h'.2.2, Finset.union_empty]

variable {voter : NodeId} {now : Nat}

private theorem counted_of_countsVote (hcnt : s.node.CountsVote response) (h : s.Counted) :
    (s.step (.handleVoteResponse voter response now)).Counted := by
  intro _
  have hone : (s.step (.handleVoteResponse voter response now)).node.voteCount =
      s.node.voteCount + 1 := (countsOne_of_countsVote voter now hcnt).voteCount
  have hcard := h hcnt.1
  rw [votes_counted voter now hcnt, hone]
  split
  · exact (Finset.card_insert_le voter s.votes).trans (by omega)
  · omega

private theorem backed_countsVote_iff (hcnt : s.node.CountsVote response) (h : s.Counted)
    (hback : s.Backed) :
    (s.step (.handleVoteResponse voter response now)).Backed ↔
      response.preVote = false ∧ voter ∉ s.votes := by
  have hone : CountsOne s.node (s.step (.handleVoteResponse voter response now)).node :=
    countsOne_of_countsVote voter now hcnt
  have hcard := h hcnt.1
  constructor
  · intro hnext
    have hle := hnext.count
    rw [hone.voteCount, votes_counted voter now hcnt] at hle
    split at hle
    · rename_i hreal
      refine ⟨hreal, fun hmem => ?_⟩
      rw [Finset.insert_eq_self.mpr hmem] at hle
      omega
    · omega
  · rintro ⟨hreal, hnew⟩
    have hvotes := votes_counted voter now hcnt
    rw [if_pos hreal] at hvotes
    have hle : (s.step (.handleVoteResponse voter response now)).node.voteCount ≤
        (s.step (.handleVoteResponse voter response now)).votes.card := by
      rw [hone.voteCount, hvotes, Finset.card_insert_of_notMem hnew]
      exact Nat.succ_le_succ hback.count
    refine ⟨hle, fun hlead => ?_⟩
    have := hone.leader hlead
    rw [hone.clusterSize]
    omega

/-! ## Whole histories -/

private theorem node_becomeLeader (now : Nat) (hcand : s.node.state = .candidate) :
    (s.step (.becomeLeader now)).node = s.node.elected now := by
  change (s.node.becomeLeader now).1 = _
  rw [RaftNode.becomeLeader, if_neg (by simp [hcand])]

private theorem backed_becomeLeader_iff (hcand : s.node.state = .candidate) (hback : s.Backed) :
    (s.step (.becomeLeader now)).Backed ↔ s.node.clusterSize < 2 * s.votes.card := by
  have hnode := node_becomeLeader now hcand
  have hvotes : (s.step (.becomeLeader now)).votes = s.votes := by
    rw [votes_step (by intro _ h; cases h) (by rw [hnode]; rfl)]
    exact Finset.union_empty _
  constructor
  · intro hnext
    have := hnext.leader (by rw [hnode]; rfl)
    rwa [hnode, hvotes] at this
  · intro hmajor
    refine ⟨?_, fun _ => ?_⟩
    · rw [hnode, hvotes]
      exact hback.count
    · rw [hnode, hvotes]
      exact hmajor

theorem Counted.step (h : s.Counted) (op : NodeOp) : (s.step op).Counted := by
  rcases step_cases s op with ⟨now, rfl⟩ | ⟨voter, response, now, rfl, hcnt⟩ |
    ⟨now, rfl, hcand⟩ | hquiet
  · exact counted_stand s.node now
  · exact counted_of_countsVote hcnt h
  · intro hstill
    rw [node_becomeLeader now hcand] at hstill
    cases hstill
  · exact hquiet.counted h

private theorem backed_step_iff (h : s.Counted) (hback : s.Backed) (op : NodeOp) :
    (s.step op).Backed ↔ s.Genuine op := by
  rcases step_cases s op with ⟨now, rfl⟩ | ⟨voter, response, now, rfl, hcnt⟩ |
    ⟨now, rfl, hcand⟩ | hquiet
  · exact iff_of_true (backed_stand s.node now) trivial
  · rw [backed_countsVote_iff hcnt h hback, Genuine]
    exact ⟨fun hreal _ => hreal, fun hgen => hgen hcnt⟩
  · rw [backed_becomeLeader_iff hcand hback, Genuine]
    exact ⟨fun hmajor _ => hmajor, fun hgen => hgen hcand⟩
  · exact iff_of_true (hquiet.backed hback) hquiet.genuine

/-- From the start of an election on, the vote count and the lead are backed by real votes
of distinct members at every moment iff every call is genuine. -/
theorem vote_count_backed_iff (a : RaftNode) (now : Nat) (ops : List NodeOp) :
    Always Canvass.step Backed (stand a now) ops ↔
      EachStep Canvass.step Genuine (stand a now) ops :=
  always_iff_eachStep (I := Counted) (counted_stand a now) (backed_stand a now)
    (fun _ op h _ _ => h.step op) (fun _ op h hback => backed_step_iff h hback op)

def grantedResponse (preVote : Bool) : RequestVoteResponse :=
  { term := 1, voteGranted := true, preVote := preVote, lastLogIndex := none }

def redelivered : List NodeOp :=
  [.handleVoteResponse ⟨1⟩ (grantedResponse false) 0,
    .handleVoteResponse ⟨1⟩ (grantedResponse false) 0]

def preVoted : List NodeOp := [.handleVoteResponse ⟨1⟩ (grantedResponse true) 0]

/-- A candidate of five nodes becomes leader with the votes of two, and one of three
nodes with its own vote only. -/
theorem vote_count_not_backed :
    (redelivered.foldl step (stand (.new ⟨0⟩ 5 .default) 0)).node.state = .leader ∧
      (redelivered.foldl step (stand (.new ⟨0⟩ 5 .default) 0)).votes = {⟨0⟩, ⟨1⟩} ∧
      ¬ Always step Backed (stand (.new ⟨0⟩ 5 .default) 0) redelivered ∧
    (preVoted.foldl step (stand (.new ⟨0⟩ 3 .default) 0)).node.state = .leader ∧
      (preVoted.foldl step (stand (.new ⟨0⟩ 3 .default) 0)).votes = {⟨0⟩} ∧
      ¬ Always step Backed (stand (.new ⟨0⟩ 3 .default) 0) preVoted := by
  refine ⟨by decide, by decide, fun h => ?_, by decide, by decide, fun h => ?_⟩
  · exact absurd h.last.count (by decide)
  · exact absurd h.last.count (by decide)

end Canvass

end Kaelix.Cluster.Raft
