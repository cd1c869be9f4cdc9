import Kaelix.Lib.History
import Kaelix.Cluster.Consensus.Operations

/-!
# Pre-votes

A pre-vote asks whether an election would be won and should change nothing at the nodes that take
part in it.  The handlers of the real votes handle it too: a pre-vote request of a newer term
makes its receiver a follower of that term, and a candidate reads a pre-vote response as any
other.
-/

namespace Kaelix.Cluster.Raft

open Lib

/-- The message is marked as a pre-vote. -/
def NodeOp.isPreVote : NodeOp → Bool
  | .handleVoteRequest request _ => request.preVote
  | .handleVoteResponse _ response _ => response.preVote
  | _ => false

def NodeOp.withoutPreVotes (ops : List NodeOp) : List NodeOp := ops.filter fun op => !op.isPreVote

/-- What pre-votes should not touch. -/
structure Visible where
  currentTerm : Nat
  votedFor : Option NodeId
  state : ConsensusState
  voteCount : Nat
  log : List LogEntry
  commitIndex : Nat
deriving DecidableEq

namespace RaftNode

/-- This part of a node. -/
def visible (self : RaftNode) : Visible :=
  { currentTerm := self.currentTerm
    votedFor := self.votedFor
    state := self.state
    voteCount := self.voteCount
    log := self.log
    commitIndex := self.commitIndex }

/-- The vote message reaches a branch that changes the node whatever its `pre_vote`: a
request of a newer term, or, at a candidate, a response that is newer or grants a vote of
the current term. -/
def ReactsTo (self : RaftNode) : NodeOp → Prop
  | .handleVoteRequest request _ => self.currentTerm < request.term
  | .handleVoteResponse _ response _ =>
    self.CountsVote response ∨
      (self.state = .candidate ∧ response.term > self.currentTerm)
  | _ => False

variable {a : RaftNode} {op : NodeOp}

theorem perform_of_not_reactsTo (hpre : op.isPreVote = true) (h : ¬ a.ReactsTo op) :
    a.perform op = a := by
  cases op with
  | handleVoteRequest request now =>
    have hpre : request.preVote = true := hpre
    rcases Nat.lt_or_ge request.term a.currentTerm with hlt | hle
    · rw [perform, handleVoteRequest_stale now hlt]
    · have hcu : a.caughtUp request.term = a := if_neg h
      rw [perform, handleVoteRequest_of_le now hle, hcu, hpre]
      simp
  | handleVoteResponse voter response now =>
    rw [ReactsTo, not_or] at h
    rw [perform, handleVoteResponse_ignored now h.1 h.2]
  | _ => cases hpre

private theorem visible_perform_ne_of_reactsTo (h : a.ReactsTo op) :
    (a.perform op).visible ≠ a.visible := by
  intro heq
  cases op with
  | handleVoteRequest request now =>
    have hlt : a.currentTerm < request.term := h
    have hterm := congrArg Visible.currentTerm heq
    rw [perform, handleVoteRequest_of_le now hlt.le] at hterm
    have hcu : a.caughtUp request.term = a.followed request.term := if_pos hlt
    have hnew : request.term = a.currentTerm := by
      rw [hcu] at hterm
      dsimp only at hterm
      split at hterm <;> exact hterm
    omega
  | handleVoteResponse voter response now =>
    rcases h with hcnt | ⟨hcand, hgt⟩
    · have hvotes := congrArg Visible.voteCount heq
      rw [perform, handleVoteResponse_counted now hcnt] at hvotes
      have hmore : a.voteCount + 1 = a.voteCount := by
        split at hvotes <;> exact hvotes
      omega
    · have hterm := congrArg Visible.currentTerm heq
      rw [perform, handleVoteResponse_newer now hcand hgt] at hterm
      have hnew : response.term = a.currentTerm := hterm
      omega
  | _ => exact h

/-! ## Two runs -/

/-- A run with the pre-votes and one without them, side by side. -/
def twinStep (t : RaftNode × RaftNode) (op : NodeOp) : RaftNode × RaftNode :=
  (t.1.perform op, if op.isPreVote then t.2 else t.2.perform op)

private theorem foldl_twinStep (ops : List NodeOp) (a b : RaftNode) :
    ops.foldl twinStep (a, b) =
      (ops.foldl perform a, (NodeOp.withoutPreVotes ops).foldl perform b) := by
  induction ops generalizing a b with
  | nil => rfl
  | cons op ops ih =>
    rw [List.foldl_cons, twinStep, ih]
    cases hpre : op.isPreVote <;> simp [NodeOp.withoutPreVotes, hpre]

private theorem twinStep_eq_iff :
    (twinStep (a, a) op).1.visible = (twinStep (a, a) op).2.visible ↔
      (op.isPreVote = true → ¬ a.ReactsTo op) := by
  cases hpre : op.isPreVote with
  | false => simp [twinStep, hpre]
  | true =>
    simp only [twinStep, hpre, if_true, true_implies]
    constructor
    · exact fun heq hreacts => visible_perform_ne_of_reactsTo hreacts heq
    · intro hno
      rw [perform_of_not_reactsTo hpre hno]

/-- Without its pre-votes a run agrees with itself at every moment iff the node never
reacts to a pre-vote. -/
theorem preVote_noninterference_iff (a : RaftNode) (ops : List NodeOp) :
    (∀ h, h <+: ops → (h.foldl perform a).visible =
        ((NodeOp.withoutPreVotes h).foldl perform a).visible) ↔
      EachStep perform (fun b op => op.isPreVote = true → ¬ b.ReactsTo op) a ops := by
  have key : Always twinStep (fun t => t.1.visible = t.2.visible) (a, a) ops ↔
      EachStep twinStep (fun t op => op.isPreVote = true → ¬ t.1.ReactsTo op) (a, a) ops := by
    refine always_iff_eachStep (I := fun t => t.1 = t.2) rfl rfl ?_ ?_
    · rintro ⟨b, c⟩ op heq - hvis
      obtain rfl : b = c := heq
      have hno := twinStep_eq_iff.mp hvis
      cases hpre : op.isPreVote with
      | false => simp [twinStep, hpre]
      | true => simp [twinStep, hpre, perform_of_not_reactsTo hpre (hno hpre)]
    · rintro ⟨b, c⟩ op heq -
      obtain rfl : b = c := heq
      exact twinStep_eq_iff
  simpa only [Always, EachStep, foldl_twinStep] using key

def asked : List NodeOp :=
  [.handleVoteRequest
    { term := 5
      candidateId := ⟨1⟩
      lastLogIndex := 0
      lastLogTerm := 0
      preVote := true } 0]

def answered : List NodeOp :=
  [.startElection 0,
    .handleVoteResponse ⟨1⟩
      { term := 1, voteGranted := true, preVote := true, lastLogIndex := none } 0]

/-- The request moves a new node of three to term 5, and the response makes a candidate of
three the leader; without them neither happens. -/
theorem preVote_interferes :
    (asked.foldl perform (new ⟨0⟩ 3 .default)).currentTerm = 5 ∧
      ((NodeOp.withoutPreVotes asked).foldl perform (new ⟨0⟩ 3 .default)).currentTerm = 0 ∧
      (answered.foldl perform (new ⟨0⟩ 3 .default)).state = .leader ∧
      ((NodeOp.withoutPreVotes answered).foldl perform
        (new ⟨0⟩ 3 .default)).state = .candidate := by
  decide

end RaftNode

end Kaelix.Cluster.Raft
