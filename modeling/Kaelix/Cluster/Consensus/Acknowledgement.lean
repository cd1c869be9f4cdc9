import Kaelix.Cluster.Consensus.LogMatching

/-!
# What an acknowledgement says

A leader records for each follower the index up to which the two logs agree.  It
takes the index from the follower's answer, which names the end of the follower's
whole log.  A heartbeat vouches for everything behind its start unseen,
`become_leader` resets nothing, and of the answers' terms only newer ones are
looked at.
-/

namespace Kaelix.Cluster.Raft

open Lib

variable {b : RaftNode} {now k : Nat}

namespace RaftNode

/-! ## What the answers say -/

variable {response : AppendEntriesResponse} {a : RaftNode} {request : AppendEntriesRequest}

private theorem result_inj {call : RaftNode × ConsensusResult AppendEntriesResponse} {c : RaftNode}
    {r : AppendEntriesResponse} (h : call = (c, .ok r)) (hcall : call = (b, .ok response)) :
    b = c ∧ response = r := by
  rw [h] at hcall
  obtain ⟨rfl, hr⟩ := Prod.mk.inj hcall
  exact ⟨rfl, (Except.ok.inj hr).symm⟩

theorem handleAppendEntries_success
    (hcall : a.handleAppendEntries request now = (b, .ok response))
    (hsucc : response.success = true) :
    a.currentTerm ≤ request.term ∧
      a.checkLogConsistency request.prevLogIndex request.prevLogTerm = true ∧
      b = a.accepted request now ∧ response.term = request.term ∧
      response.lastLogIndex = some b.lastLogInfo.1 := by
  obtain ⟨_, heq⟩ | ⟨_, _, heq⟩ | ⟨hle, hcons, heq⟩ := handleAppendEntries_cases a request now
  · obtain ⟨_, rfl⟩ := result_inj heq hcall
    cases hsucc
  · obtain ⟨_, rfl⟩ := result_inj heq hcall
    cases hsucc
  · obtain ⟨rfl, rfl⟩ := result_inj heq hcall
    exact ⟨hle, hcons, rfl, accepted_currentTerm a request now, rfl⟩

private theorem findConflictInfo_le {prevLogIndex prevLogTerm : Nat}
    (h : a.checkLogConsistency prevLogIndex prevLogTerm = false) :
    (a.findConflictInfo prevLogIndex).1 ≤ prevLogIndex := by
  obtain ⟨_, ⟨hsh, hinfo⟩ | ⟨_, i, _, _, hi, hinfo⟩⟩ := findConflictInfo_cases h
  · rw [hinfo]
    exact hsh.le
  · rw [hinfo]
    exact hi

theorem handleAppendEntries_conflictIndex {conflictIndex : Nat}
    (hcall : a.handleAppendEntries request now = (b, .ok response))
    (hconf : response.conflictIndex = some conflictIndex) :
    response.term = request.term ∧ conflictIndex ≤ request.prevLogIndex := by
  obtain ⟨_, heq⟩ | ⟨_, hcons, heq⟩ | ⟨_, _, heq⟩ := handleAppendEntries_cases a request now
  · obtain ⟨_, rfl⟩ := result_inj heq hcall
    cases hconf
  · obtain ⟨_, rfl⟩ := result_inj heq hcall
    obtain rfl := Option.some.inj hconf
    exact ⟨rfl, findConflictInfo_le hcons⟩
  · obtain ⟨_, rfl⟩ := result_inj heq hcall
    cases hconf

/-! ## What the leader records -/

/-- The next index of every follower is inside the log or just behind it. -/
def NextInLog (a : RaftNode) : Prop :=
  ∀ f k, a.nextIndex.lookup f = some k → k ≤ a.log.length + 1

private theorem indexAfterTerm_le {term : Nat} (h : a.indexAfterTerm term = some k) :
    k ≤ a.log.length + 1 := by
  obtain ⟨i, entry, rfl, hent, _⟩ := indexAfterTerm_some h
  have hlt := (List.getElem?_eq_some_iff.mp hent).1
  omega

theorem NextInLog.handleLogConflict (h : a.NextInLog) (followerId : NodeId)
    (hconf : ∀ k, response.conflictIndex = some k → k ≤ a.log.length + 1) :
    (a.handleLogConflict followerId response).NextInLog := by
  have hins : ∀ v, v ≤ a.log.length + 1 → ∀ f k,
      (a.nextIndex.insert followerId v).lookup f = some k →
        k ≤ a.log.length + 1 := by
    intro v hv f k hk
    rw [HashMap.lookup_insert_eq] at hk
    split at hk
    · obtain rfl := Option.some.inj hk
      exact hv
    · exact h f k hk
  unfold RaftNode.handleLogConflict
  cases hc : response.conflictIndex with
  | some conflictIndex =>
    have hle := hconf conflictIndex hc
    cases ht : response.conflictTerm with
    | some term =>
      refine hins _ ?_
      cases hafter : a.indexAfterTerm term with
      | some => exact indexAfterTerm_le hafter
      | none => exact hle
    | none => exact hins _ hle
  | none =>
    cases hnext : a.nextIndex.lookup followerId with
    | none => exact h
    | some nextIdx =>
      have hle := h followerId nextIdx hnext
      dsimp only
      split
      · exact hins _ (by omega)
      · exact h

theorem createAppendEntries_of_nextInLog (h : a.NextInLog) (followerId : NodeId) (requestId : Nat)
    (details : String) :
    a.createAppendEntries followerId requestId ≠ .error (.logInconsistency details) := by
  have hnext : a.nextIndexFor followerId ≤ a.log.length + 1 := by
    unfold nextIndexFor
    cases hk : a.nextIndex.lookup followerId with
    | none => exact Nat.succ_le_succ (Nat.zero_le _)
    | some k => exact h followerId k hk
  by_cases hstate : a.state = .leader
  · obtain ⟨request, hok, _⟩ := createAppendEntries_of_next_le requestId hstate hnext
    rw [hok]
    simp
  · have hlead : (!a.isLeader) = true := by simpa [isLeader] using hstate
    unfold createAppendEntries
    rw [if_pos hlead]
    simp

end RaftNode

variable {n : NodeId}

namespace RaftCluster

open RaftNode

/-- A node that leads after a step has led before, with what it records kept, has
just won, or has handled an answer. -/
def LeadChange (s : RaftCluster) (e : Event) (n : NodeId) (b : RaftNode) : Prop :=
  b.state ≠ .leader ∨
  ((s.node n).state = .leader ∧ b.currentTerm = (s.node n).currentTerm ∧
    b.matchIndex = (s.node n).matchIndex ∧ b.nextIndex = (s.node n).nextIndex ∧
    (s.node n).log <+: b.log) ∨
  (∃ p now response, e = .deliver p now ∧ p.dst = n ∧
    p.message = .voteResponse response ∧ (s.node n).CountsVote response ∧
    (s.node n).clusterSize / 2 + 1 ≤ (s.node n).voteCount + 1 ∧
    b.matchIndex = (s.node n).matchIndex ∧ b.nextIndex = (s.node n).nextIndex ∧
    b.log = (s.node n).log) ∨
  (∃ p now response, e = .deliver p now ∧ p ∈ s.net ∧ p.dst = n ∧
    p.message = .appendResponse response ∧ (s.node n).state = .leader ∧
    response.term ≤ (s.node n).currentTerm ∧ response.success = true ∧
    b = ((s.node n).recordAck p.src response.lastLogIndex).tryAdvanceCommitIndex) ∨
  ∃ p now response, e = .deliver p now ∧ p ∈ s.net ∧ p.dst = n ∧
    p.message = .appendResponse response ∧ (s.node n).state = .leader ∧
    response.term ≤ (s.node n).currentTerm ∧ response.success = false ∧
    b = (s.node n).handleLogConflict p.src response

theorem Change.leadChange {s : RaftCluster} {e : Event} (h : Change s e n b) :
    LeadChange s e n b := by
  have hkept : ∀ b : RaftNode, b.state = (s.node n).state →
      b.currentTerm = (s.node n).currentTerm → b.matchIndex = (s.node n).matchIndex →
      b.nextIndex = (s.node n).nextIndex → (s.node n).log <+: b.log →
      LeadChange s e n b := by
    intro b hstate hterm hmatch hnext hlog
    by_cases hlead : (s.node n).state = .leader
    · exact .inr (.inl ⟨hlead, hterm, hmatch, hnext, hlog⟩)
    · exact .inl (hstate ▸ hlead)
  cases h with
  | same => exact hkept _ rfl rfl rfl rfl (List.prefix_refl _)
  | campaign => exact .inl (by simp [startElection])
  | append => exact hkept _ rfl rfl rfl rfl (List.prefix_append _ _)
  | apply =>
    rw [applyCommittedEntries_eq]
    exact hkept _ rfl rfl rfl rfl (List.prefix_refl _)
  | follow => exact .inl (by simp [followed])
  | vote he hp hdst hm hterm =>
    rcases caughtUp_cases hterm with ⟨_, hcu⟩ | ⟨_, hcu⟩ <;> rw [hcu]
    · exact hkept _ rfl rfl rfl rfl (List.prefix_refl _)
    · exact .inl (by simp [withVote, followed])
  | count he hp hdst hm hcnt => exact .inl (by simp [counted, hcnt.1])
  | win he hp hdst hm hcnt hmany =>
    exact .inr (.inr (.inl ⟨_, _, _, he, hdst, hm, hcnt, hmany, rfl, rfl, rfl⟩))
  | hear => exact .inl (by simp [heard, followed])
  | accept =>
    rw [accepted, followCommit_eq, storeEntries_eq]
    exact .inl (by simp [heard, followed])
  | acknowledge he hp hdst hm hstate hterm hsucc =>
    exact .inr (.inr (.inr (.inl ⟨_, _, _, he, hp, hdst, hm, hstate, hterm, hsucc, rfl⟩)))
  | conflict he hp hdst hm hstate hterm hsucc =>
    exact .inr (.inr (.inr (.inr ⟨_, _, _, he, hp, hdst, hm, hstate, hterm, hsucc, rfl⟩)))

end RaftCluster

variable {f : NodeId} {m i : Nat}

namespace ClusterRun

open RaftCluster RaftNode

/-! ## The conditions -/

section

variable (ρ : ClusterRun)

variable (i : Nat)

/-- Step `i` delivers no heartbeat to a log that goes on behind the heartbeat's
`prev_log_index`. -/
def HeartbeatCovers : Prop :=
  ∀ p ∈ (ρ.event i).delivered, ∀ request ∈ p.appendRequest,
    (ρ.node i p.dst).currentTerm ≤ request.term →
    (ρ.node i p.dst).checkLogConsistency request.prevLogIndex request.prevLogTerm = true →
    request.entries = [] → (ρ.node i p.dst).log.length ≤ request.prevLogIndex

instance (ρ : ClusterRun) (i : Nat) : Decidable (ρ.HeartbeatCovers i) :=
  inferInstanceAs (Decidable (∀ p ∈ (ρ.event i).delivered, ∀ request ∈ p.appendRequest, _))

/-- What step `i` finds recorded at a node that it makes a leader. -/
def AtWin (R : RaftNode → Prop) : Prop :=
  ∀ p ∈ (ρ.event i).delivered, ∀ response ∈ p.voteResponse,
    (ρ.node i p.dst).CountsVote response →
    (ρ.node i p.dst).clusterSize / 2 + 1 ≤ (ρ.node i p.dst).voteCount + 1 →
    R (ρ.node i p.dst)

/-- A node that wins at step `i` has no match index but `0`. -/
def MatchCleared : Prop :=
  ρ.AtWin i fun a => ∀ k ∈ a.matchIndex.values, k = 0

/-- A node that wins at step `i` has no next index behind the end of its log. -/
def NextCleared : Prop :=
  ρ.AtWin i fun a => ∀ k ∈ a.nextIndex.values, k ≤ a.log.length + 1

/-- What is asked of an answer of an earlier term that reaches a leader at step
`i`. -/
def AtStaleAnswer (R : AppendEntriesResponse → Prop) : Prop :=
  ∀ p ∈ (ρ.event i).delivered, ∀ response ∈ p.appendResponse,
    (ρ.node i p.dst).state = .leader →
    response.term < (ρ.node i p.dst).currentTerm → R response

/-- No success of an earlier term reaches a leader at step `i`. -/
def FreshSuccess : Prop :=
  ρ.AtStaleAnswer i fun response => response.success = false

/-- No conflict index of an earlier term reaches a leader at step `i`. -/
def FreshConflict : Prop :=
  ρ.AtStaleAnswer i fun response => response.conflictIndex = none

end

instance (ρ : ClusterRun) (i : Nat) (R : RaftNode → Prop) [DecidablePred R] :
    Decidable (ρ.AtWin i R) :=
  inferInstanceAs (Decidable (∀ p ∈ (ρ.event i).delivered, ∀ response ∈ p.voteResponse, _))

instance (ρ : ClusterRun) (i : Nat) (R : AppendEntriesResponse → Prop) [DecidablePred R] :
    Decidable (ρ.AtStaleAnswer i R) :=
  inferInstanceAs (Decidable (∀ p ∈ (ρ.event i).delivered, ∀ response ∈ p.appendResponse, _))

instance (ρ : ClusterRun) (i : Nat) : Decidable (ρ.MatchCleared i) :=
  inferInstanceAs (Decidable (ρ.AtWin i _))

instance (ρ : ClusterRun) (i : Nat) : Decidable (ρ.NextCleared i) :=
  inferInstanceAs (Decidable (ρ.AtWin i _))

instance (ρ : ClusterRun) (i : Nat) : Decidable (ρ.FreshSuccess i) :=
  inferInstanceAs (Decidable (ρ.AtStaleAnswer i _))

instance (ρ : ClusterRun) (i : Nat) : Decidable (ρ.FreshConflict i) :=
  inferInstanceAs (Decidable (ρ.AtStaleAnswer i _))

variable {ρ : ClusterRun} {response : AppendEntriesResponse} {i : Nat} {p : Packet}

theorem AtStaleAnswer.leads {R : AppendEntriesResponse → Prop} (h : ρ.AtStaleAnswer i R)
    (he : ρ.event i = .deliver p now) (hm : p.message = .appendResponse response)
    (hlead : (ρ.node i p.dst).state = .leader)
    (hterm : response.term ≤ (ρ.node i p.dst).currentTerm) (hR : ¬ R response) :
    ρ.Leads i p.dst response.term := by
  refine ⟨hlead, ?_⟩
  rcases Nat.lt_or_eq_of_le hterm with hlt | heq
  · exact absurd (h p (Event.mem_delivered.mpr ⟨now, he⟩) response
      (Packet.mem_appendResponse.mpr hm) hlead hlt) hR
  · exact heq.symm

/-! ## Answers in flight -/

/-- At moment `m` the follower `f` had, in the term `T`, taken over the first `k`
entries of the leader `n` of that term, and no more. -/
structure Acked (ρ : ClusterRun) (f n : NodeId) (T k m : Nat) : Prop where
  mem : f ∈ (ρ.state 0).ids
  ne : f ≠ n
  term : (ρ.node m f).currentTerm = T
  length : (ρ.node m f).log.length = k
  stored : ∃ j, j ≤ m ∧ ρ.Leads j n T ∧ (ρ.node m f).log <+: (ρ.node j n).log

/-- A successful answer stands for entries the follower had. -/
theorem acked (hinit : (ρ.state 0).Initial) (hsafe : ρ.ElectionSafe)
    (hcover : ∀ i, i < ρ.length → ρ.HeartbeatCovers i) (hi : i ≤ ρ.length)
    (hp : p ∈ (ρ.state i).net) (hm : p.message = .appendResponse response)
    (hsucc : response.success = true) :
    ∃ m k, m ≤ i ∧ response.lastLogIndex = some k ∧
      ρ.Acked p.src p.dst response.term k m := by
  obtain ⟨j, hj, hsent⟩ := ρ.origin hinit i hi p hp
  cases hsent with
  | @appendResponse q now request response' he hq hq' hcall =>
    obtain rfl := Message.appendResponse.inj hm
    obtain ⟨hle, hcons, hb, hterm, hlast⟩ := handleAppendEntries_success hcall hsucc
    obtain ⟨l, hl, hsrc⟩ := ρ.sentBy hinit (show j ≤ ρ.length by omega) hq hq'
    have hgood := goodLog hsafe hinit (show j ≤ ρ.length by omega) q.dst
    have hgood' := (goodLog hsafe hinit (show l ≤ ρ.length by omega) q.src).mono
      (show l ≤ j by omega) (Nat.le_refl _)
    have hlog := accepted_log_prefix hsafe hinit (show j ≤ ρ.length by omega) hgood hgood'
      now hsrc.replicates hcons (hcover j (by omega) q (Event.mem_delivered.mpr ⟨now, he⟩)
        request (Packet.mem_appendRequest.mpr hq') hle hcons)
    have hnode : ρ.node (j + 1) q.dst = (ρ.node j q.dst).accepted request now := hb
    have hdense := (goodLog hsafe hinit (show j + 1 ≤ ρ.length by omega) q.dst).dense
    refine ⟨j + 1, _, hj, hlast, ?_⟩
    refine ⟨hsrc.dst, hsrc.leaderId ▸ hsrc.ne, ?_, ?_, l, by omega, ?_, ?_⟩
    · rw [hterm, hnode, accepted_currentTerm]
    · exact (congrArg Prod.fst (lastLogInfo_of_dense hdense)).symm
    · rw [hterm, hsrc.leaderId]
      exact hsrc.leads
    · rw [hnode, hlog, hsrc.leaderId]
      exact List.take_prefix _ _
  | voteRequest | voteResponse | appendRequest => cases hm

theorem conflictIndex_le (hinit : (ρ.state 0).Initial) (hi : i ≤ ρ.length)
    (hp : p ∈ (ρ.state i).net) (hm : p.message = .appendResponse response)
    (hk : response.conflictIndex = some k) :
    ∃ j, j ≤ i ∧ ρ.Leads j p.dst response.term ∧ k ≤ (ρ.node j p.dst).log.length := by
  obtain ⟨j, hj, hsent⟩ := ρ.origin hinit i hi p hp
  cases hsent with
  | @appendResponse q now request response' he hq hq' hcall =>
    obtain rfl := Message.appendResponse.inj hm
    obtain ⟨hterm, hle⟩ := handleAppendEntries_conflictIndex hcall hk
    obtain ⟨l, hl, hsrc⟩ := ρ.sentBy hinit (show j ≤ ρ.length by omega) hq hq'
    refine ⟨l, by omega, ?_, ?_⟩
    · rw [hterm, hsrc.leaderId]
      exact hsrc.leads
    · rw [hsrc.leaderId]
      exact hle.trans hsrc.replicates.segment.le
  | voteRequest | voteResponse | appendRequest => cases hm

/-! ## The leader's records -/

/-- Every match index the leader `n` has recorded at moment `i` is `0` or has been
acknowledged in its term. -/
def Matched (ρ : ClusterRun) (i : Nat) (n : NodeId) : Prop :=
  ∀ f k, (ρ.node i n).matchIndex.lookup f = some k →
    k = 0 ∨ ∃ m, m ≤ i ∧ ρ.Acked f n (ρ.node i n).currentTerm k m

private theorem Matched.mono (h : ρ.Matched i n)
    (hk : (ρ.node i n).matchIndex.lookup f = some k)
    (hterm : (ρ.node (i + 1) n).currentTerm = (ρ.node i n).currentTerm) :
    k = 0 ∨ ∃ m, m ≤ i + 1 ∧ ρ.Acked f n (ρ.node (i + 1) n).currentTerm k m := by
  rw [hterm]
  rcases h f k hk with h0 | ⟨m, hm, hacked⟩
  · exact .inl h0
  · exact .inr ⟨m, by omega, hacked⟩

section

variable (hinit : (ρ.state 0).Initial) (hsafe : ρ.ElectionSafe)
  (hcover : ∀ i, i < ρ.length → ρ.HeartbeatCovers i)
include hinit hsafe hcover

private theorem matched_step (hi : i < ρ.length)
    (hwin : ρ.MatchCleared i) (hfresh : ρ.FreshSuccess i)
    (h : (ρ.node i n).state = .leader → ρ.Matched i n) :
    (ρ.node (i + 1) n).state = .leader → ρ.Matched (i + 1) n := by
  intro hlead' f k hk
  rcases (ρ.change hi n).leadChange with hno | ⟨hlead, hterm, hmatch, _, _⟩ |
    ⟨p, now, response, he, rfl, hm, hcnt, hmany, hmatch, _, _⟩ |
    ⟨p, now, response, he, hp, rfl, hm, hlead, hterm, hsucc, hb⟩ |
    ⟨p, now, response, he, hp, rfl, hm, hlead, hterm, hsucc, hb⟩
  · exact absurd hlead' hno
  · exact (h hlead).mono (hmatch ▸ hk) hterm
  · -- nothing is left over from an earlier leadership
    have hzero := hwin p (Event.mem_delivered.mpr ⟨now, he⟩) response
      (Packet.mem_voteResponse.mpr hm) hcnt hmany
    change (ρ.node (i + 1) p.dst).matchIndex = (ρ.node i p.dst).matchIndex at hmatch
    exact .inl (hzero k (HashMap.mem_values_of_lookup (hmatch ▸ hk)))
  · have heq := (hfresh.leads he hm hlead hterm (by simp [hsucc])).2
    obtain ⟨m, k', hm', hlast, hacked⟩ := acked hinit hsafe hcover hi.le hp hm hsucc
    rw [tryAdvanceCommitIndex_eq, hlast] at hb
    have hterm' : (ρ.node (i + 1) p.dst).currentTerm = (ρ.node i p.dst).currentTerm := by
      rw [show ρ.node (i + 1) p.dst = _ from hb]
      rfl
    have hmatch : (ρ.node (i + 1) p.dst).matchIndex =
        (ρ.node i p.dst).matchIndex.insert p.src k' := by
      rw [show ρ.node (i + 1) p.dst = _ from hb]
      rfl
    rw [hmatch, HashMap.lookup_insert_eq] at hk
    split at hk
    · rename_i hf
      obtain rfl := Option.some.inj hk
      rw [hf, hterm', heq]
      exact .inr ⟨m, by omega, hacked⟩
    · exact (h hlead).mono hk hterm'
  · rw [handleLogConflict_eq] at hb
    have hterm' : (ρ.node (i + 1) p.dst).currentTerm = (ρ.node i p.dst).currentTerm := by
      rw [show ρ.node (i + 1) p.dst = _ from hb]
      rfl
    have hmatch : (ρ.node (i + 1) p.dst).matchIndex = (ρ.node i p.dst).matchIndex := by
      rw [show ρ.node (i + 1) p.dst = _ from hb]
      rfl
    exact (h hlead).mono (hmatch ▸ hk) hterm'

/-- What a leader records as matched was acknowledged. -/
theorem matched (hwin : ∀ i, i < ρ.length → ρ.MatchCleared i)
    (hfresh : ∀ i, i < ρ.length → ρ.FreshSuccess i) (n : NodeId) :
    ∀ i, i ≤ ρ.length → (ρ.node i n).state = .leader → ρ.Matched i n := by
  refine ρ.invariant ?_ fun i hi =>
    matched_step hinit hsafe hcover hi (hwin i hi) (hfresh i hi)
  intro hlead
  obtain ⟨config, h0⟩ := ρ.node_zero hinit n
  rw [h0] at hlead
  cases hlead

end

theorem Acked.le_length {T : Nat} (h : ρ.Acked f n T k m) (hm : m ≤ i) (hi : i ≤ ρ.length)
    (hlead : ρ.Leads i n T) :
    (ρ.node m f).log <+: (ρ.node i n).log ∧ k ≤ (ρ.node i n).log.length := by
  obtain ⟨j, hj, hjlead, hpre⟩ := h.stored
  have hpre' := hpre.trans (hjlead.log_prefix hlead (by omega) hi)
  exact ⟨hpre', h.length ▸ hpre'.length_le⟩

section

variable (hinit : (ρ.state 0).Initial) (hsafe : ρ.ElectionSafe)
  (hcover : ∀ i, i < ρ.length → ρ.HeartbeatCovers i)
include hinit hsafe hcover

private theorem nextInLog_step (hi : i < ρ.length)
    (hwin : ρ.NextCleared i) (hfresh : ρ.FreshSuccess i) (hfresh' : ρ.FreshConflict i)
    (h : (ρ.node i n).state = .leader → (ρ.node i n).NextInLog) :
    (ρ.node (i + 1) n).state = .leader → (ρ.node (i + 1) n).NextInLog := by
  intro hlead'
  rcases (ρ.change hi n).leadChange with hno | ⟨hlead, _, _, hnext, hlog⟩ |
    ⟨p, now, response, he, rfl, hm, hcnt, hmany, _, hnext, hlog⟩ |
    ⟨p, now, response, he, hp, rfl, hm, hlead, hterm, hsucc, hb⟩ |
    ⟨p, now, response, he, hp, rfl, hm, hlead, hterm, hsucc, hb⟩
  · exact absurd hlead' hno
  · intro f k hk
    have hlen : (ρ.node i n).log.length ≤ (ρ.node (i + 1) n).log.length := hlog.length_le
    have hle := h hlead f k (hnext ▸ hk)
    omega
  · intro f k hk
    have hinlog := hwin p (Event.mem_delivered.mpr ⟨now, he⟩) response
      (Packet.mem_voteResponse.mpr hm) hcnt hmany
    change (ρ.node (i + 1) p.dst).nextIndex = (ρ.node i p.dst).nextIndex at hnext
    change (ρ.node (i + 1) p.dst).log = (ρ.node i p.dst).log at hlog
    rw [hlog]
    exact hinlog k (HashMap.mem_values_of_lookup (hnext ▸ hk))
  · have hlead'' := hfresh.leads he hm hlead hterm (by simp [hsucc])
    obtain ⟨m, k', hm', hlast, hacked⟩ := acked hinit hsafe hcover hi.le hp hm hsucc
    have hle := (hacked.le_length hm' hi.le hlead'').2
    rw [tryAdvanceCommitIndex_eq, hlast] at hb
    intro f k hk
    rw [show ρ.node (i + 1) p.dst = _ from hb] at hk ⊢
    change ((ρ.node i p.dst).nextIndex.insert p.src (k' + 1)).lookup f = some k at hk
    change k ≤ (ρ.node i p.dst).log.length + 1
    rw [HashMap.lookup_insert_eq] at hk
    split at hk
    · obtain rfl := Option.some.inj hk
      omega
    · exact h hlead f k hk
  · rw [show ρ.node (i + 1) p.dst = _ from hb]
    refine (h hlead).handleLogConflict p.src ?_
    intro k hk
    have hlead'' := hfresh'.leads he hm hlead hterm (by simp [hk])
    obtain ⟨j, hj, hjlead, hle⟩ := conflictIndex_le hinit hi.le hp hm hk
    have hlen := (hjlead.log_prefix hlead'' hj hi.le).length_le
    exact (hle.trans hlen).trans (Nat.le_succ _)

/-- A leader's next indices are at most one past its log. -/
theorem nextInLog (hwin : ∀ i, i < ρ.length → ρ.NextCleared i)
    (hfresh : ∀ i, i < ρ.length → ρ.FreshSuccess i)
    (hfresh' : ∀ i, i < ρ.length → ρ.FreshConflict i) (n : NodeId) :
    ∀ i, i ≤ ρ.length → (ρ.node i n).state = .leader → (ρ.node i n).NextInLog := by
  refine ρ.invariant ?_ fun i hi =>
    nextInLog_step hinit hsafe hcover hi (hwin i hi) (hfresh i hi) (hfresh' i hi)
  intro hlead
  obtain ⟨config, h0⟩ := ρ.node_zero hinit n
  rw [h0] at hlead
  cases hlead

end

end ClusterRun

/-! ## Acknowledgement soundness -/

/-- The record `k` for the follower `f` is right: at some moment of the leader's
term the logs of `n` and `f` had `k` entries each, the same ones. -/
def ClusterRun.Agreed (ρ : ClusterRun) (i : Nat) (n f : NodeId) (k : Nat) : Prop :=
  ∃ m, m ≤ i ∧ (ρ.node m n).currentTerm = (ρ.node i n).currentTerm ∧
    k ≤ (ρ.node m n).log.length ∧ k ≤ (ρ.node m f).log.length ∧
    (ρ.node m f).log.take k = (ρ.node m n).log.take k

theorem ClusterRun.Acked.agreed {ρ : ClusterRun} (h : ρ.Acked f n (ρ.node i n).currentTerm k m)
    (hm : m ≤ i) (hi : i ≤ ρ.length) (hlead : (ρ.node i n).state = .leader) :
    ρ.Agreed i n f k := by
  obtain ⟨j, hj, hjlead, _⟩ := h.stored
  have hmlead := hjlead.between ⟨hlead, rfl⟩ hj hm hi
  obtain ⟨hpre, hle⟩ := h.le_length (Nat.le_refl m) (by omega) hmlead
  refine ⟨m, hm, hmlead.2, hle, h.length.ge, ?_⟩
  rw [List.take_of_length_le h.length.le, List.prefix_iff_eq_take.mp hpre, h.length]

/-- The records of every leader at moment `i` are right, and no request it builds
fails. -/
def ClusterRun.AcksSound (ρ : ClusterRun) (i : Nat) : Prop :=
  ∀ n ∈ (ρ.state 0).ids, (ρ.node i n).state = .leader →
    (∀ f k, (ρ.node i n).matchIndex.lookup f = some k →
      k ≤ (ρ.node i n).log.length ∧ ρ.Agreed i n f k) ∧
    ∀ f requestId details, (ρ.node i n).createAppendEntries f requestId ≠
      .error (.logInconsistency details)

/-- The conditions on step `i` under which acknowledgements are sound. -/
def ClusterRun.AckConditions (ρ : ClusterRun) (i : Nat) : Prop :=
  ρ.VoteRemembered i ∧ ρ.HeartbeatCovers i ∧ ρ.MatchCleared i ∧ ρ.NextCleared i ∧
    ρ.FreshSuccess i ∧ ρ.FreshConflict i

instance (ρ : ClusterRun) (i : Nat) : Decidable (ρ.AckConditions i) :=
  inferInstanceAs (Decidable (_ ∧ _ ∧ _ ∧ _ ∧ _ ∧ _))

/-- Acknowledgement soundness in every run without duplicated packets whose steps
meet the conditions. -/
theorem acksSound_of_ackConditions (ρ : ClusterRun) (hinit : (ρ.state 0).Initial)
    (hdup : ∀ i, i < ρ.length → (ρ.event i).isDuplicate = false)
    (hcond : ∀ i, i < ρ.length → ρ.AckConditions i) : ∀ i, i ≤ ρ.length → ρ.AcksSound i := by
  intro i hi n _ hlead
  have hsafe := ClusterRun.electionSafe_of_voteRemembered hinit hdup fun i hi => (hcond i hi).1
  have hcover := fun i hi => (hcond i hi).2.1
  have hfresh := fun i hi => (hcond i hi).2.2.2.2.1
  have hmat := ClusterRun.matched hinit hsafe hcover
    (fun i hi => (hcond i hi).2.2.1) hfresh n i hi hlead
  have hnext := ClusterRun.nextInLog hinit hsafe hcover
    (fun i hi => (hcond i hi).2.2.2.1) hfresh (fun i hi => (hcond i hi).2.2.2.2.2)
    n i hi hlead
  refine ⟨?_, RaftNode.createAppendEntries_of_nextInLog hnext⟩
  intro f k hk
  rcases hmat f k hk with rfl | ⟨m, hm, hacked⟩
  · exact ⟨Nat.zero_le _, i, Nat.le_refl i, rfl, Nat.zero_le _, Nat.zero_le _, rfl⟩
  · exact ⟨(hacked.le_length hm hi ⟨hlead, rfl⟩).2, hacked.agreed hm hi hlead⟩

theorem acksSound_replication :
    (replicationRun.node 7 nodeA).matchIndex.lookup nodeB = some 1 ∧
      ∀ i, i ≤ replicationRun.length → replicationRun.AcksSound i :=
  ⟨by decide, acksSound_of_ackConditions replicationRun trio_initial (by decide) (by decide)⟩

/-- `A` leads term 1 and appends an entry nobody else has.  `C` leads term 2 with
an empty log and sends a heartbeat; `A` accepts it and answers with the end of its
own log. -/
def unseenSuffix : List Event :=
  [.startElection nodeA 0, .deliver (ballot nodeA nodeB 1) 0,
   .deliver (grant nodeB nodeA 1) 0, .appendEntry nodeA [7] ⟨0⟩,
   .startElection nodeC 0, .startElection nodeC 0, .deliver (ballot nodeC nodeB 2) 0,
   .deliver (grant nodeB nodeC 2) 0, .createAppendEntries nodeC nodeA 1,
   .deliver (heartbeat nodeC nodeA 2 1) 0, .deliver (ack nodeA nodeC 2 1 1) 0]

def unseenSuffixRun : ClusterRun := Run.ofEvents RaftCluster.step trio unseenSuffix (by decide)

/-- Without the conditions a leader records an index its own log does not reach. -/
theorem acksSound_fails : ¬ ∀ ρ : ClusterRun, (ρ.state 0).Initial →
    (∀ i, i < ρ.length → (ρ.event i).isDuplicate = false) →
    ∀ i, i ≤ ρ.length → ρ.AcksSound i := by
  intro h
  have hsound := h unseenSuffixRun trio_initial (by decide) 11 (Nat.le_refl 11) nodeC
    (by decide) (by decide)
  have hle : 1 ≤ (unseenSuffixRun.node 11 nodeC).log.length := (hsound.1 nodeA 1 (by decide)).1
  exact absurd hle (by decide)

end Kaelix.Cluster.Raft
