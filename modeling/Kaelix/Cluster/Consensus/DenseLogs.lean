import Kaelix.Cluster.Consensus.LogMatching

/-!
# Dense logs in the order of their terms

The handlers of a node compute with the lengths of logs where they mean indices.  This is right
in every run, and no leader needs to be unique for it: a request in flight is a segment of its
sender's log (`SentBy`), which was well ordered when the request was built.
-/

namespace Kaelix.Cluster.Raft

open Lib

/-- The indices of a log are the positions in it, and its terms ascend up to `term` at most. -/
structure WellOrdered (term : Nat) (l : List LogEntry) : Prop where
  dense : ClusterRun.Dense l
  ascending : Ascending LogEntry.term l
  term_le : ∀ e ∈ l, e.term ≤ term

namespace WellOrdered

variable {T U : Nat} {l : List LogEntry}

theorem nil : WellOrdered T [] where
  dense := by
    intro x e hx
    simp at hx
  ascending := List.Pairwise.nil
  term_le := by simp

theorem mono (h : WellOrdered T l) (hTU : T ≤ U) : WellOrdered U l :=
  ⟨h.dense, h.ascending, fun e he => (h.term_le e he).trans hTU⟩

private theorem append {a : RaftNode} (h : WellOrdered a.currentTerm a.log) (command : List UInt8)
    (timestamp : SerializableInstant) :
    WellOrdered a.currentTerm (a.log ++ [a.newEntry command timestamp]) where
  dense := h.dense.concat rfl
  ascending := h.ascending.concat h.term_le
  term_le := by
    simp only [List.mem_append, List.mem_singleton]
    rintro e (hold | rfl)
    · exact h.term_le e hold
    · exact Nat.le_refl _

private theorem splice {log src entries : List LogEntry} {prev : Nat} (hlog : WellOrdered T log)
    (hsrc : WellOrdered U src) (hTU : T ≤ U) (hseg : Segment prev entries src)
    (hprev : prev = 0 ∨ ∃ e e', log[prev - 1]? = some e ∧ src[prev - 1]? = some e' ∧
      e.term = e'.term) : WellOrdered U (log.take prev ++ entries) := by
  have hlen : (log.take prev).length = prev := by
    rcases hprev with rfl | ⟨e, _, he, _⟩
    · simp
    · have := (List.getElem?_eq_some_iff.mp he).1
      rw [List.length_take]
      omega
  have hmem : ∀ e ∈ entries, e ∈ src := fun e he =>
    List.mem_of_mem_drop (hseg.entries.subset he)
  constructor
  case dense =>
    intro x e hx
    rcases Nat.lt_or_ge x prev with hlt | hge
    · rw [List.getElem?_append_left (by omega), List.getElem?_take_of_lt hlt] at hx
      exact hlog.dense x e hx
    · rw [List.getElem?_append_right (by omega), hlen] at hx
      have hindex := hsrc.dense _ e (hseg.getElem? hx)
      omega
  case ascending =>
    refine hlog.ascending.append_take ?_ (hprev.imp_right ?_)
    · exact hsrc.ascending.sublist (hseg.entries.sublist.trans (List.drop_sublist _ _))
    · rintro ⟨e, e', he, he', hterm⟩
      refine ⟨e, he, fun b hb => hterm ▸ ?_⟩
      obtain ⟨y, hy⟩ := List.mem_iff_getElem?.mp hb
      exact hsrc.ascending.le_of_le he' (hseg.getElem? hy) (by omega)
  case term_le =>
    intro e he
    rcases List.mem_append.mp he with hold | hnew
    · exact (hlog.term_le e (List.mem_of_mem_take hold)).trans hTU
    · exact hsrc.term_le e (hmem e hnew)

private theorem accepted {a b : RaftNode} {request : AppendEntriesRequest} (now : Nat)
    (ha : WellOrdered a.currentTerm a.log) (hb : WellOrdered b.currentTerm b.log)
    (hrep : b.Replicates request) (hterm : a.currentTerm ≤ request.term)
    (hcons : a.checkLogConsistency request.prevLogIndex request.prevLogTerm = true) :
    WellOrdered request.term (a.accepted request now).log := by
  rw [RaftNode.accepted_log]
  split
  · exact ha.mono hterm
  · rw [hrep.term] at hterm ⊢
    refine ha.splice hb hterm hrep.segment ?_
    rcases hrep.prev with h0 | ⟨e', he', hterm'⟩
    · exact .inl h0
    rcases RaftNode.checkLogConsistency_iff.mp hcons with h0 | ⟨e, he, hterm''⟩
    · exact .inl h0
    · exact .inr ⟨e, e', he, he', hterm''.trans hterm'.symm⟩

end WellOrdered

namespace ClusterRun

open RaftCluster

private theorem wellOrdered_step {ρ : ClusterRun} (hinit : (ρ.state 0).Initial) {i : Nat}
    (hi : i < ρ.length)
    (h : ∀ j, j ≤ i → ∀ n, WellOrdered (ρ.node j n).currentTerm (ρ.node j n).log)
    (n : NodeId) : WellOrdered (ρ.node (i + 1) n).currentTerm (ρ.node (i + 1) n).log := by
  have hold := h i (Nat.le_refl i) n
  rcases (ρ.change hi n).logChange with hlog | ⟨-, -, hterm, command, timestamp, hlog⟩ |
    ⟨p, now, request, -, hp, rfl, hm, hle, hcons, hb⟩
  · rw [hlog]
    exact hold.mono (ρ.term_mono (Nat.le_succ i) hi n)
  · rw [hlog, hterm]
    exact hold.append command timestamp
  · obtain ⟨j, hj, hsent⟩ := ρ.sentBy hinit hi.le hp hm
    rw [hb, RaftNode.accepted_currentTerm]
    exact hold.accepted now (h j (by omega) p.src) hsent.replicates hle hcons

end ClusterRun

/-- In every reachable state an entry's index is its position in the log, terms never fall along
a log, and no entry is newer than the node's current term. -/
theorem wellOrdered_of_run (ρ : ClusterRun) (hinit : (ρ.state 0).Initial) :
    ∀ i, i ≤ ρ.length → ∀ n ∈ (ρ.state i).ids,
      WellOrdered ((ρ.state i).node n).currentTerm ((ρ.state i).node n).log := by
  intro i hi n _
  refine ρ.strongInvariant (P := fun j => ∀ m,
    WellOrdered (ρ.node j m).currentTerm (ρ.node j m).log) ?_ ?_ i hi n
  · intro m
    obtain ⟨config, h0⟩ := ρ.node_zero hinit m
    rw [h0]
    exact .nil
  · intro k hk ih m
    exact ClusterRun.wellOrdered_step hinit hk ih m

/-- The run in which `A` is elected and replicates an entry. -/
theorem wellOrdered_replication : (replicationRun.state 0).Initial ∧
    ∀ i, i ≤ replicationRun.length → ∀ n ∈ (replicationRun.state i).ids,
      WellOrdered ((replicationRun.state i).node n).currentTerm
        ((replicationRun.state i).node n).log :=
  ⟨trio_initial, wellOrdered_of_run replicationRun trio_initial⟩

end Kaelix.Cluster.Raft
