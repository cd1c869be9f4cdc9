import Kaelix.Cluster.Consensus.LogMatching

/-!
# Stability of the committed prefix on one node

A step should never lower the commit index of a node, never move it behind the end of the log, and
never touch an entry at or below it.  But `append_new_entries` cuts the log at
`prev_log_index` before it appends, so a late request removes committed entries.
-/

namespace Kaelix.Cluster.Raft

open Lib

namespace RaftNode

/-- What is committed is in the log. -/
def CommitInLog (a : RaftNode) : Prop := a.commitIndex ≤ a.log.length

/-- The step from `a` to `b` is stable: the commit index does not fall, it stays
inside the log, and every committed entry is unchanged. -/
structure Stable (a b : RaftNode) : Prop where
  commit_le : a.commitIndex ≤ b.commitIndex
  inLog : b.CommitInLog
  entry : ∀ k, 1 ≤ k → k ≤ a.commitIndex → b.entryAt k = a.entryAt k

variable {a : RaftNode}

theorem Stable.of_isPrefix {b : RaftNode} (ha : a.CommitInLog) (hlog : a.log <+: b.log)
    (hle : a.commitIndex ≤ b.commitIndex) (hin : b.CommitInLog) : Stable a b where
  commit_le := hle
  inLog := hin
  entry k hk hkc := by
    unfold CommitInLog at ha
    exact (Comparable.getElem? (.inl hlog) (by omega) (by have := hlog.length_le; omega)).symm

/-- The entries of the request start with the committed entries that they
replace. -/
def Retains (a : RaftNode) (request : AppendEntriesRequest) : Prop :=
  (a.log.drop request.prevLogIndex).take (a.commitIndex - request.prevLogIndex) <+:
    request.entries

instance (a : RaftNode) (request : AppendEntriesRequest) : Decidable (a.Retains request) :=
  inferInstanceAs (Decidable (_ <+: _))

private theorem prev_le_of_consistent {prevLogIndex prevLogTerm : Nat}
    (h : a.checkLogConsistency prevLogIndex prevLogTerm = true) :
    prevLogIndex ≤ a.log.length := by
  rcases checkLogConsistency_iff.mp h with h0 | ⟨e, he, _⟩
  · omega
  · have := (List.getElem?_eq_some_iff.mp he).1
    omega

private theorem take_splice_iff {log : List LogEntry} (entries : List LogEntry)
    {prev commit : Nat} (hprev : prev ≤ log.length) (hcom : commit ≤ log.length) :
    log.take commit <+: log.take prev ++ entries ↔
      (log.drop prev).take (commit - prev) <+: entries := by
  have hlen : (log.take prev).length = prev := by rw [List.length_take]; omega
  rcases Nat.le_total commit prev with hle | hle
  · rw [Nat.sub_eq_zero_of_le hle, List.take_zero]
    refine iff_of_true ?_ List.nil_prefix
    have hpre : log.take commit <+: log.take prev :=
      List.prefix_take_iff.mpr ⟨List.take_prefix _ _, by rw [List.length_take]; omega⟩
    exact hpre.trans (List.prefix_append _ _)
  · have hsplit : log.take commit = log.take prev ++ (log.drop prev).take (commit - prev) := by
      rw [← List.take_add]
      congr 1
      omega
    rw [hsplit, List.prefix_append_right_inj]

variable {request : AppendEntriesRequest}

/-- An accepted request with entries is stable exactly when it retains the
committed entries. -/
theorem accepted_stable_iff (now : Nat) (ha : a.CommitInLog)
    (hcons : a.checkLogConsistency request.prevLogIndex request.prevLogTerm = true)
    (hne : request.entries ≠ []) : Stable a (a.accepted request now) ↔ a.Retains request := by
  unfold CommitInLog at ha
  have hlog : (a.accepted request now).log =
      a.log.take request.prevLogIndex ++ request.entries := by
    rw [accepted_log, if_neg hne]
  have hcom := accepted_commitIndex a request now
  have hiff := take_splice_iff request.entries (prev_le_of_consistent hcons) ha
  rw [← hlog] at hiff
  rw [Retains, ← hiff]
  constructor
  · rintro ⟨hle, hin, hent⟩
    unfold CommitInLog at hin
    rw [List.prefix_iff_eq_take, List.length_take, Nat.min_eq_left ha]
    refine List.ext_getElem? fun x => ?_
    rcases Nat.lt_or_ge x a.commitIndex with hx | hx
    · rw [List.getElem?_take_of_lt hx, List.getElem?_take_of_lt hx]
      exact (hent (x + 1) (by omega) hx).symm
    · rw [List.getElem?_eq_none (by rw [List.length_take]; omega),
        List.getElem?_eq_none (by rw [List.length_take]; omega)]
  · intro hpre
    have hlen := hpre.length_le
    rw [List.length_take, Nat.min_eq_left ha] at hlen
    refine ⟨?_, ?_, ?_⟩
    · rw [hcom]
      split <;> omega
    · rw [CommitInLog, hcom]
      split <;> omega
    · intro k hk hkc
      have hread : (a.log.take a.commitIndex)[k - 1]? = a.log[k - 1]? :=
        List.getElem?_take_of_lt (by omega)
      have hsame := Comparable.getElem? (.inl hpre) (x := k - 1)
        (by rw [List.length_take]; omega) (by omega)
      exact hsame.symm.trans hread

theorem accepted_heartbeat_stable (now : Nat) (ha : a.CommitInLog) (hne : request.entries = []) :
    Stable a (a.accepted request now) := by
  unfold CommitInLog at ha
  have hlog : (a.accepted request now).log = a.log := by
    rw [accepted_log, if_pos hne]
  have hcom := accepted_commitIndex a request now
  rw [hlog] at hcom
  refine Stable.of_isPrefix ha (by rw [hlog]) ?_ ?_
  · rw [hcom]
    split <;> omega
  · rw [CommitInLog, hlog, hcom]
    split <;> omega

theorem Advances.medianIndex_le (h : a.Advances) : a.medianIndex ≤ a.log.length := by
  obtain ⟨_, hgt, entry, hent, _⟩ := h
  have := (List.getElem?_eq_some_iff.mp hent).1
  omega

end RaftNode

namespace RaftCluster

open RaftNode

/-- A step keeps a node's commit index and log, apart from entries the node
appends, accepts a request, or advances the commit index of a leader. -/
def CommitChange (s : RaftCluster) (e : Event) (n : NodeId) (b : RaftNode) : Prop :=
  (b.commitIndex = (s.node n).commitIndex ∧ (s.node n).log <+: b.log) ∨
  (∃ p now request, e = .deliver p now ∧ p ∈ s.net ∧ p.dst = n ∧
    p.message = .appendRequest request ∧ (s.node n).currentTerm ≤ request.term ∧
    (s.node n).checkLogConsistency request.prevLogIndex request.prevLogTerm = true ∧
    b = (s.node n).accepted request now) ∨
  ∃ p now response, e = .deliver p now ∧ p.dst = n ∧
    p.message = .appendResponse response ∧ (s.node n).state = .leader ∧
    response.term ≤ (s.node n).currentTerm ∧ response.success = true ∧
    ((s.node n).recordAck p.src response.lastLogIndex).Advances ∧
    b = { (s.node n).recordAck p.src response.lastLogIndex with
      commitIndex := ((s.node n).recordAck p.src response.lastLogIndex).medianIndex }

theorem Change.commitChange {s : RaftCluster} {e : Event} {n : NodeId} {b : RaftNode}
    (h : Change s e n b) : CommitChange s e n b := by
  cases h with
  | same | campaign | follow | count | win | hear => exact .inl ⟨rfl, List.prefix_refl _⟩
  | append => exact .inl ⟨rfl, List.prefix_append _ _⟩
  | apply =>
    rw [applyCommittedEntries_eq]
    exact .inl ⟨rfl, List.prefix_refl _⟩
  | vote he hp hdst hm hterm =>
    rcases caughtUp_cases hterm with ⟨_, hcu⟩ | ⟨_, hcu⟩ <;> rw [hcu] <;>
      exact .inl ⟨rfl, List.prefix_refl _⟩
  | accept he hp hdst hm hterm hcons =>
    exact .inr (.inl ⟨_, _, _, he, hp, hdst, hm, hterm, hcons, rfl⟩)
  | @acknowledge p now response he hp hdst hm hstate hterm hsucc =>
    by_cases hadv : ((s.node n).recordAck p.src response.lastLogIndex).Advances
    · rw [tryAdvanceCommitIndex_of_advances hadv]
      exact .inr (.inr ⟨p, now, response, he, hdst, hm, hstate, hterm, hsucc, hadv, rfl⟩)
    · rw [tryAdvanceCommitIndex_of_not_advances hadv, recordAck_eq]
      exact .inl ⟨rfl, List.prefix_refl _⟩
  | conflict =>
    rw [handleLogConflict_eq]
    exact .inl ⟨rfl, List.prefix_refl _⟩

end RaftCluster

namespace ClusterRun

open RaftCluster RaftNode

/-- Step `i` delivers no request that drops committed entries: a request with
entries that passes the term and consistency checks starts with the committed
entries behind its `prev_log_index`. -/
def KeepsCommitted (ρ : ClusterRun) (i : Nat) : Prop :=
  ∀ p ∈ (ρ.event i).delivered, ∀ request ∈ p.appendRequest,
    (ρ.node i p.dst).currentTerm ≤ request.term →
    (ρ.node i p.dst).checkLogConsistency request.prevLogIndex request.prevLogTerm = true →
    request.entries ≠ [] → (ρ.node i p.dst).Retains request

instance (ρ : ClusterRun) (i : Nat) : Decidable (ρ.KeepsCommitted i) :=
  inferInstanceAs (Decidable (∀ p ∈ (ρ.event i).delivered, ∀ request ∈ p.appendRequest, _))

/-- The committed part is inside the log at moment `i` and step `i`, if there is
one, is stable on every node. -/
def StableAt (ρ : ClusterRun) (i : Nat) : Prop :=
  ∀ n ∈ (ρ.state 0).ids, (ρ.node i n).CommitInLog ∧
    (i < ρ.length → Stable (ρ.node i n) (ρ.node (i + 1) n))

variable {ρ : ClusterRun} {i : Nat}

private theorem stable_step (hi : i < ρ.length) (hkeep : ρ.KeepsCommitted i) {n : NodeId}
    (hin : (ρ.node i n).CommitInLog) : Stable (ρ.node i n) (ρ.node (i + 1) n) := by
  rcases (ρ.change hi n).commitChange with ⟨hcom, hlog⟩ |
    ⟨p, now, request, he, hp, rfl, hm, hle, hcons, hb⟩ |
    ⟨p, now, response, he, rfl, hm, hlead, hterm, hsucc, hadv, hb⟩
  · refine Stable.of_isPrefix hin hlog hcom.ge ?_
    exact hcom.le.trans (hin.trans hlog.length_le)
  · rw [hb]
    by_cases hne : request.entries = []
    · exact accepted_heartbeat_stable now hin hne
    · refine (accepted_stable_iff now hin hcons hne).mpr ?_
      exact hkeep p (Event.mem_delivered.mpr ⟨now, he⟩) request
        (Packet.mem_appendRequest.mpr hm) hle hcons hne
  · have hle := hadv.medianIndex_le
    have hgt := hadv.2.1
    rw [recordAck_eq] at hle hgt
    rw [hb, recordAck_eq]
    exact Stable.of_isPrefix hin (List.prefix_refl _) (Nat.le_of_lt hgt) hle

private theorem commitInLog_of_keepsCommitted (hinit : (ρ.state 0).Initial)
    (hkeep : ∀ i, i < ρ.length → ρ.KeepsCommitted i) (n : NodeId) :
    ∀ i, i ≤ ρ.length → (ρ.node i n).CommitInLog := by
  refine ρ.invariant ?_ fun i hi ih => (stable_step hi (hkeep i hi) ih).inLog
  obtain ⟨config, h0⟩ := ρ.node_zero hinit n
  rw [h0]
  exact Nat.zero_le _

private theorem keepsCommitted_of_stableAt (hinit : (ρ.state 0).Initial) (hi : i < ρ.length)
    (h : ρ.StableAt i) : ρ.KeepsCommitted i := by
  intro p hdel request hreq hle hcons hne
  have hm := Packet.mem_appendRequest.mp hreq
  obtain ⟨now, he⟩ := Event.mem_delivered.mp hdel
  have hstep := ρ.step_eq i hi
  rw [he] at hstep
  simp only [step, Option.ite_none_right_eq_some, Option.some.injEq] at hstep
  obtain ⟨hp, hnext⟩ := hstep
  have hdst : p.dst ∈ (ρ.state 0).ids := by
    obtain ⟨_, _, hsent⟩ := ρ.sentBy hinit hi.le hp hm
    exact hsent.dst
  have hb : ρ.node (i + 1) p.dst = (ρ.node i p.dst).accepted request now := by
    have hcall := handleAppendEntries_accepted now hle hcons
    rw [node, ← hnext, handle, send_node, set_node_self, answer, hm]
    dsimp only
    rw [show ((ρ.state i).receive p).node p.dst = ρ.node i p.dst from rfl, hcall]
  obtain ⟨hin, hstable⟩ := h p.dst hdst
  have hs := hstable hi
  rw [hb] at hs
  exact (accepted_stable_iff now hin hcons hne).mp hs

end ClusterRun

/-- The committed prefix of every node is stable at every moment of a run exactly
if no step delivers a request that drops committed entries. -/
theorem stableAt_iff_keepsCommitted (ρ : ClusterRun) (hinit : (ρ.state 0).Initial) :
    (∀ i, i ≤ ρ.length → ρ.StableAt i) ↔ ∀ i, i < ρ.length → ρ.KeepsCommitted i := by
  constructor
  · intro h i hi
    exact ClusterRun.keepsCommitted_of_stableAt hinit hi (h i hi.le)
  · intro hkeep i hi n _
    have hin := ClusterRun.commitInLog_of_keepsCommitted hinit hkeep n i hi
    exact ⟨hin, fun hlt => ClusterRun.stable_step hlt (hkeep i hlt) hin⟩

/-- The replication run drops nothing, so it is stable throughout. -/
theorem stableAt_replication : (replicationRun.node 7 nodeA).commitIndex = 1 ∧
    ∀ i, i ≤ replicationRun.length → replicationRun.StableAt i :=
  ⟨by decide, (stableAt_iff_keepsCommitted replicationRun trio_initial).mpr (by decide)⟩

def secondEntry : LogEntry := .new 1 2 [8] ⟨0⟩

def heartbeatTwo (l f : NodeId) (term commit requestId : Nat) : Packet :=
  ⟨l, f, .appendRequest ⟨term, l, 2, 1, [], commit, requestId⟩⟩

/-- `A` builds a request with its first entry, appends a second one and builds a
request with both.  `B` stores both, they are committed on `A` and on `B`, and only
then the first request arrives: `B` cuts its log to one entry. -/
def lateRequest : List Event :=
  [.startElection nodeA 0, .deliver (ballot nodeA nodeB 1) 0,
   .deliver (grant nodeB nodeA 1) 0, .appendEntry nodeA [7] ⟨0⟩,
   .createAppendEntries nodeA nodeB 1, .appendEntry nodeA [8] ⟨0⟩,
   .createAppendEntries nodeA nodeB 2,
   .deliver (wholeLog nodeA nodeB 1 [firstEntry, secondEntry] 0 2) 0,
   .deliver (ack nodeB nodeA 1 2 2) 0, .createAppendEntries nodeA nodeB 3,
   .deliver (heartbeatTwo nodeA nodeB 1 2 3) 0,
   .deliver (wholeLog nodeA nodeB 1 [firstEntry] 0 1) 0]

def lateRequestRun : ClusterRun := Run.ofEvents RaftCluster.step trio lateRequest (by decide)

/-- Without the condition the committed prefix is not stable, even if nothing is
duplicated. -/
theorem stableAt_fails : ¬ ∀ ρ : ClusterRun, (ρ.state 0).Initial →
    (∀ i, i < ρ.length → (ρ.event i).isDuplicate = false) →
    ∀ i, i ≤ ρ.length → ρ.StableAt i := by
  intro h
  have hin : (lateRequestRun.node 12 nodeB).CommitInLog :=
    (h lateRequestRun trio_initial (by decide) 12 (Nat.le_refl 12) nodeB (by decide)).1
  exact absurd hin (by unfold RaftNode.CommitInLog; decide)

end Kaelix.Cluster.Raft
