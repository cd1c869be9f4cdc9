import Kaelix.Cluster.Consensus.History

/-!
# Election safety

A node that leads a term has a majority of votes of that term behind it, so two leaders of one
term share a voter.  That the shared voter has voted for both is impossible only if a node votes
for one candidate per term, and this is where the implementation falls short: `become_follower`
clears `voted_for` even when the term stays the same, so every `AppendEntries` of the current term
makes the receiver forget its vote.
-/

namespace Kaelix.Cluster.Raft

open Lib

/-! ## How a vote changes -/

variable {a b : RaftNode} {request : RequestVoteRequest} {now : Nat}
    {response : RequestVoteResponse}

namespace RaftNode

theorem grantsVote_iff :
    a.grantsVote request = true ↔
      (a.votedFor = none ∨ a.votedFor = some request.candidateId) ∧
        a.isLogUpToDate request.lastLogIndex request.lastLogTerm = true := by
  simp only [grantsVote, Bool.and_eq_true, Bool.or_eq_true, Option.isNone_iff_eq_none, beq_iff_eq]

theorem handleVoteRequest_granted (hcall : a.handleVoteRequest request now = (b, .ok response))
    (hgrant : response.voteGranted = true) (hreal : request.preVote = false) :
    response.term = request.term ∧ b.currentTerm = request.term ∧
      b.votedFor = some request.candidateId := by
  by_cases hterm : request.term < a.currentTerm
  · rw [handleVoteRequest_stale now hterm] at hcall
    obtain ⟨_, hr⟩ := Prod.mk.inj hcall
    obtain rfl := Except.ok.inj hr
    cases hgrant
  · have hle : a.currentTerm ≤ request.term := by omega
    rw [handleVoteRequest_of_le now hle] at hcall
    obtain ⟨hb, hr⟩ := Prod.mk.inj hcall
    obtain rfl := Except.ok.inj hr
    have hyes : (a.caughtUp request.term).grantsVote request = true := hgrant
    have hcu := caughtUp_currentTerm hle
    rw [if_pos (by simp [hyes, hreal])] at hb
    subst hb
    exact ⟨hcu, hcu, rfl⟩

end RaftNode

variable {s : RaftCluster} {e : Event}

namespace RaftCluster

open RaftNode

/-- A step keeps a node's vote, clears it, casts the vote of a new candidate for
itself, or grants a request. -/
def VoteChange (s : RaftCluster) (e : Event) (v : NodeId) (b : RaftNode) : Prop :=
  (b.currentTerm = (s.node v).currentTerm ∧ b.votedFor = (s.node v).votedFor) ∨
  b.votedFor = none ∨
  ((s.node v).currentTerm < b.currentTerm ∧ b.votedFor = some (s.node v).nodeId) ∨
  ∃ p now request, e = .deliver p now ∧ p ∈ s.net ∧ p.message = .voteRequest request ∧
    p.dst = v ∧ b.currentTerm = request.term ∧ b.votedFor = some request.candidateId ∧
    b.isLogUpToDate request.lastLogIndex request.lastLogTerm = true ∧
    ((s.node v).currentTerm < request.term ∨
      (s.node v).currentTerm = request.term ∧ (s.node v).grantsVote request = true)

theorem Change.voteChange {v : NodeId} (h : Change s e v b) : VoteChange s e v b := by
  cases h with
  | same | append | count | win => exact .inl ⟨rfl, rfl⟩
  | campaign => exact .inr (.inr (.inl ⟨Nat.lt_succ_self _, rfl⟩))
  | apply =>
    rw [applyCommittedEntries_eq]
    exact .inl ⟨rfl, rfl⟩
  | follow | hear => exact .inr (.inl rfl)
  | @vote p now request he hp hdst hm hterm hgrant hreal =>
    have hlog := (grantsVote_iff.mp hgrant).2
    rcases caughtUp_cases hterm with ⟨heq, hcu⟩ | ⟨hlt, hcu⟩ <;> rw [hcu] at hgrant hlog ⊢
    · exact .inr (.inr (.inr ⟨p, now, request, he, hp, hm, hdst, heq, rfl, hlog,
        .inr ⟨heq, hgrant⟩⟩))
    · exact .inr (.inr (.inr ⟨p, now, request, he, hp, hm, hdst, rfl, rfl, hlog, .inl hlt⟩))
  | accept =>
    rw [accepted, followCommit_eq, storeEntries_eq]
    exact .inr (.inl rfl)
  | acknowledge =>
    rw [tryAdvanceCommitIndex_eq, recordAck_eq]
    exact .inl ⟨rfl, rfl⟩
  | conflict =>
    rw [handleLogConflict_eq]
    exact .inl ⟨rfl, rfl⟩

end RaftCluster

/-! ## Votes over a run -/

variable {i j : Nat}

namespace ClusterRun

open RaftCluster RaftNode

variable (ρ : ClusterRun)

/-- Some moment up to `i` shows the node `v` with a vote for `c` in the term
`T`. -/
def Voted (i : Nat) (v c : NodeId) (T : Nat) : Prop :=
  ∃ j, j ≤ i ∧ (ρ.node j v).currentTerm = T ∧ (ρ.node j v).votedFor = some c

/-- Step `i` asks no node for a vote it has forgotten: a receiver that is in the
term of the request, holds no vote and finds the candidate's log up to date has
held no vote for another candidate in that term. -/
def VoteRemembered (i : Nat) : Prop :=
  ∀ p ∈ (ρ.event i).delivered, ∀ request ∈ p.voteRequest,
    (ρ.node i p.dst).currentTerm = request.term →
    (ρ.node i p.dst).votedFor = none →
    (ρ.node i p.dst).isLogUpToDate request.lastLogIndex request.lastLogTerm = true →
    ∀ j, j ≤ i → (ρ.node j p.dst).currentTerm = request.term →
      (ρ.node j p.dst).votedFor = none ∨
        (ρ.node j p.dst).votedFor = some request.candidateId

instance (ρ : ClusterRun) (i : Nat) : Decidable (ρ.VoteRemembered i) :=
  inferInstanceAs (Decidable (∀ p ∈ (ρ.event i).delivered, ∀ request ∈ p.voteRequest, _))

theorem Voted.mono {ρ : ClusterRun} {v c : NodeId} {T : Nat} (h : ρ.Voted i v c T) (hij : i ≤ j) :
    ρ.Voted j v c T := by
  obtain ⟨k, hk, hterm, hvote⟩ := h
  exact ⟨k, by omega, hterm, hvote⟩

theorem Voted.term_le {ρ : ClusterRun} {v c : NodeId} {T : Nat} (h : ρ.Voted i v c T)
    (hi : i ≤ ρ.length) : T ≤ (ρ.node i v).currentTerm := by
  obtain ⟨k, hk, rfl, _⟩ := h
  exact ρ.term_mono hk hi v

theorem voted_now {v c : NodeId} (h : (ρ.node i v).votedFor = some c) :
    ρ.Voted i v c (ρ.node i v).currentTerm :=
  ⟨i, Nat.le_refl i, rfl, h⟩

theorem not_voted_zero {ρ : ClusterRun} (hinit : (ρ.state 0).Initial) {v c : NodeId} {T : Nat} :
    ¬ ρ.Voted 0 v c T := by
  rintro ⟨j, hj, _, hvote⟩
  obtain rfl : j = 0 := by omega
  obtain ⟨config, h0⟩ := ρ.node_zero hinit v
  rw [h0] at hvote
  cases hvote

/-- A vote shown after a step for the first time agrees with every earlier vote
of the same node and term. -/
private theorem voted_agrees_step {ρ : ClusterRun} (hi : i < ρ.length) (hrem : ρ.VoteRemembered i)
    {v c c' : NodeId} (hnow : (ρ.node (i + 1) v).votedFor = some c)
    (hold : ρ.Voted i v c' (ρ.node (i + 1) v).currentTerm)
    (huniq : ∀ d d' T, ρ.Voted i v d T → ρ.Voted i v d' T → d = d') : c = c' := by
  have hle := hold.term_le hi.le
  rcases (ρ.change hi v).voteChange with ⟨hterm, hvote⟩ | hnone | ⟨hlt, _⟩ |
    ⟨p, now, request, he, _, hm, rfl, hterm', hvote, _, hlt | ⟨hterm, hgrant⟩⟩
  · refine huniq c c' _ ⟨i, Nat.le_refl i, hterm.symm, ?_⟩ hold
    exact hvote.symm.trans hnow
  · exact absurd (hnone.symm.trans hnow) (by simp)
  · exact absurd hle (by simp only [node] at hlt ⊢; omega)
  · exact absurd hle (by simp only [node] at hlt hterm' ⊢; omega)
  · have hc : c = request.candidateId := by
      have := hnow.symm.trans hvote
      simpa using this
    rw [show (ρ.node (i + 1) p.dst).currentTerm = request.term from hterm'] at hold
    obtain ⟨hnone | hsome, hlog⟩ := grantsVote_iff.mp hgrant
    · obtain ⟨j, hj, hjterm, hjvote⟩ := hold
      have hdel := Event.mem_delivered.mpr ⟨now, he⟩
      have hreq := Packet.mem_voteRequest.mpr hm
      rcases hrem p hdel request hreq hterm hnone hlog j hj hjterm with hn | hs
      · rw [hn] at hjvote
        cases hjvote
      · rw [hs] at hjvote
        rw [hc]
        exact Option.some.inj hjvote
    · rw [hc]
      exact huniq _ _ _ ⟨i, Nat.le_refl i, hterm, hsome⟩ hold

/-- A voter that remembers its votes gives one a term. -/
theorem voted_unique (hinit : (ρ.state 0).Initial)
    (hrem : ∀ i, i < ρ.length → ρ.VoteRemembered i) (v : NodeId) :
    ∀ i, i ≤ ρ.length → ∀ c c' T, ρ.Voted i v c T → ρ.Voted i v c' T → c = c' := by
  refine ρ.invariant ?_ ?_
  · intro c c' T hc _
    exact absurd hc (not_voted_zero hinit)
  · intro i hi huniq c c' T hc hc'
    obtain ⟨j, hj, hjterm, hjvote⟩ := hc
    obtain ⟨j', hj', hjterm', hjvote'⟩ := hc'
    rcases Nat.lt_or_ge j (i + 1) with hlt | hge
    · rcases Nat.lt_or_ge j' (i + 1) with hlt' | hge'
      · exact huniq c c' T ⟨j, by omega, hjterm, hjvote⟩ ⟨j', by omega, hjterm', hjvote'⟩
      · obtain rfl : j' = i + 1 := by omega
        subst hjterm'
        exact (voted_agrees_step hi (hrem i hi) hjvote' ⟨j, by omega, hjterm, hjvote⟩ huniq).symm
    · obtain rfl : j = i + 1 := by omega
      subst hjterm
      rcases Nat.lt_or_ge j' (i + 1) with hlt' | hge'
      · exact voted_agrees_step hi (hrem i hi) hjvote ⟨j', by omega, hjterm', hjvote'⟩ huniq
      · obtain rfl : j' = i + 1 := by omega
        rw [hjvote] at hjvote'
        exact Option.some.inj hjvote'

end ClusterRun

/-! ## The votes behind a candidate -/

namespace RaftCluster

open RaftNode

/-- A step keeps a node's candidacy, ends in a follower, starts an election, or
counts a vote. -/
def TallyChange (s : RaftCluster) (e : Event) (n : NodeId) (b : RaftNode) : Prop :=
  (b.currentTerm = (s.node n).currentTerm ∧ b.state = (s.node n).state ∧
    b.voteCount = (s.node n).voteCount) ∨
  b.state = .follower ∨
  (n ∈ s.ids ∧ b.currentTerm = (s.node n).currentTerm + 1 ∧
    b.votedFor = some (s.node n).nodeId ∧ b.state = .candidate ∧ b.voteCount = 1) ∨
  ∃ p now response, e = .deliver p now ∧ p ∈ s.net ∧ p.dst = n ∧
    p.message = .voteResponse response ∧ (s.node n).CountsVote response ∧
    b.currentTerm = (s.node n).currentTerm ∧
    (b.state = .candidate ∧ b.voteCount = (s.node n).voteCount + 1 ∨
      b.state = .leader ∧ (s.node n).clusterSize / 2 + 1 ≤ (s.node n).voteCount + 1)

theorem Change.tallyChange {n : NodeId} (h : Change s e n b) : TallyChange s e n b := by
  cases h with
  | same | append => exact .inl ⟨rfl, rfl, rfl⟩
  | campaign he hn => exact .inr (.inr (.inl ⟨hn, rfl, rfl, rfl, rfl⟩))
  | apply =>
    rw [applyCommittedEntries_eq]
    exact .inl ⟨rfl, rfl, rfl⟩
  | follow | hear => exact .inr (.inl rfl)
  | vote he hp hdst hm hterm =>
    rcases caughtUp_cases hterm with ⟨_, hcu⟩ | ⟨_, hcu⟩ <;> rw [hcu]
    · exact .inl ⟨rfl, rfl, rfl⟩
    · exact .inr (.inl rfl)
  | @count p now response he hp hdst hm hcnt hfew =>
    exact .inr (.inr (.inr ⟨p, now, response, he, hp, hdst, hm, hcnt, rfl,
      .inl ⟨hcnt.1, rfl⟩⟩))
  | @win p now response he hp hdst hm hcnt hmany =>
    exact .inr (.inr (.inr ⟨p, now, response, he, hp, hdst, hm, hcnt, rfl, .inr ⟨rfl, hmany⟩⟩))
  | accept =>
    rw [accepted, followCommit_eq, storeEntries_eq]
    exact .inr (.inl rfl)
  | acknowledge =>
    rw [tryAdvanceCommitIndex_eq, recordAck_eq]
    exact .inl ⟨rfl, rfl, rfl⟩
  | conflict =>
    rw [handleLogConflict_eq]
    exact .inl ⟨rfl, rfl, rfl⟩

end RaftCluster

variable {p : Packet}

namespace ClusterRun

open RaftCluster RaftNode

private theorem initial_net (h : s.Initial) : s.net = [] := by
  obtain ⟨_, config, hs⟩ := h
  rw [hs]
  rfl

/-- A vote request in flight at moment `i` comes from the candidate it names and
describes the log of that candidate. -/
structure Solicits (ρ : ClusterRun) (i : Nat) (p : Packet)
    (request : RequestVoteRequest) : Prop where
  src : p.src = request.candidateId
  real : request.preVote = false
  dst : p.dst ∈ (ρ.state 0).ids
  ne : p.dst ≠ p.src
  candidacy : ∃ j, j ≤ i ∧ (ρ.node j p.src).state = .candidate ∧
    (ρ.node j p.src).currentTerm = request.term ∧
    (ρ.node j p.src).lastLogInfo = (request.lastLogIndex, request.lastLogTerm)

variable {ρ : ClusterRun}

theorem Solicits.term_le (h : ρ.Solicits i p request) (hi : i ≤ ρ.length) :
    request.term ≤ (ρ.node i p.src).currentTerm := by
  obtain ⟨j, hj, _, hterm, _⟩ := h.candidacy
  rw [← hterm]
  exact ρ.term_mono hj hi _

section

variable (ρ : ClusterRun)

theorem solicits (hinit : (ρ.state 0).Initial) (hi : i ≤ ρ.length) (hp : p ∈ (ρ.state i).net)
    (hm : p.message = .voteRequest request) : ρ.Solicits i p request := by
  obtain ⟨j, hj, hsent⟩ := ρ.origin hinit i hi p hp
  cases hsent with
  | @voteRequest n v now he hn hv hne hnode =>
    obtain rfl := Message.voteRequest.inj hm
    refine ⟨(ρ.nodeId_eq hinit n j (by omega)).symm, rfl,
      ρ.ids_eq j (by omega) ▸ hv, hne, j + 1, hj, ?_⟩
    rw [node, hnode]
    exact ⟨rfl, rfl, rfl⟩
  | voteResponse | appendRequest | appendResponse => cases hm

/-- A granted vote in flight at moment `i` comes from a node that has cast it. -/
structure Grants (ρ : ClusterRun) (i : Nat) (p : Packet)
    (response : RequestVoteResponse) : Prop where
  voted : ρ.Voted i p.src p.dst response.term
  src : p.src ∈ (ρ.state 0).ids
  ne : p.src ≠ p.dst
  term_le : response.term ≤ (ρ.node i p.dst).currentTerm

theorem grants (hinit : (ρ.state 0).Initial) (hi : i ≤ ρ.length) (hp : p ∈ (ρ.state i).net)
    (hm : p.message = .voteResponse response) (hgrant : response.voteGranted = true) :
    ρ.Grants i p response := by
  obtain ⟨j, hj, hsent⟩ := ρ.origin hinit i hi p hp
  cases hsent with
  | @voteResponse q now request response' he hq hq' hcall =>
    obtain rfl := Message.voteResponse.inj hm
    have hreq := ρ.solicits hinit (show j ≤ ρ.length by omega) hq hq'
    obtain ⟨hr, hb, hv⟩ := handleVoteRequest_granted hcall hgrant hreq.real
    refine ⟨?_, hreq.dst, hreq.src ▸ hreq.ne, ?_⟩
    · rw [hr]
      exact ⟨j + 1, hj, hb, hv⟩
    · have hle := (hreq.term_le (by omega)).trans (ρ.term_mono (show j ≤ i by omega) hi _)
      rw [hr]
      exact hreq.src ▸ hle
  | voteRequest | appendRequest | appendResponse => cases hm

/-- Before moment `i` the candidate `c` has counted a vote of `v` in the term
`T`. -/
def Counted (i : Nat) (v c : NodeId) (T : Nat) : Prop :=
  ∃ j, j < i ∧ ∃ p now response, ρ.event j = .deliver p now ∧
    p ∈ (ρ.state j).net ∧ p.src = v ∧ p.dst = c ∧
    p.message = .voteResponse response ∧ (ρ.node j c).CountsVote response ∧
    response.term = T

/-- Step `i` counts no vote that has been counted before. -/
def CountsOnce (i : Nat) : Prop :=
  ∀ p now response, ρ.event i = .deliver p now → p ∈ (ρ.state i).net →
    p.message = .voteResponse response → (ρ.node i p.dst).CountsVote response →
    ¬ ρ.Counted i p.src p.dst response.term

end

theorem Counted.mono {v c : NodeId} {T : Nat} (h : ρ.Counted i v c T) (hij : i ≤ j) :
    ρ.Counted j v c T := by
  obtain ⟨k, hk, hrest⟩ := h
  exact ⟨k, by omega, hrest⟩

/-- The voters behind a node at moment `i`.  A candidate's count is the number of
its voters; a leader has had a majority as a candidate. -/
structure Tally (ρ : ClusterRun) (i : Nat) (c : NodeId) : Prop where
  candidate : (ρ.node i c).state = .candidate →
    ∃ Q : Finset NodeId, Q ⊆ (ρ.state 0).ids.toFinset ∧
      Q.card = (ρ.node i c).voteCount ∧
      ∀ v ∈ Q, ρ.Voted i v c (ρ.node i c).currentTerm ∧
        (v = c ∨ ρ.Counted i v c (ρ.node i c).currentTerm)
  leader : (ρ.node i c).state = .leader →
    ∃ Q : Finset NodeId, IsMajority Q (ρ.state 0).ids.toFinset ∧
      ∃ k, k ≤ i ∧ (ρ.node k c).state = .candidate ∧
        (ρ.node k c).currentTerm = (ρ.node i c).currentTerm ∧
        ∀ v ∈ Q, ρ.Voted k v c (ρ.node i c).currentTerm

private theorem Tally.count (hinit : (ρ.state 0).Initial) (hi : i < ρ.length)
    (honce : ρ.CountsOnce i) (htally : ρ.Tally i p.dst) (he : ρ.event i = .deliver p now)
    (hp : p ∈ (ρ.state i).net) (hm : p.message = .voteResponse response)
    (hcnt : (ρ.node i p.dst).CountsVote response) :
    ∃ Q : Finset NodeId, Q ⊆ (ρ.state 0).ids.toFinset ∧
      Q.card = (ρ.node i p.dst).voteCount + 1 ∧
      ∀ v ∈ Q, ρ.Voted i v p.dst (ρ.node i p.dst).currentTerm ∧
        (v = p.dst ∨ ρ.Counted (i + 1) v p.dst (ρ.node i p.dst).currentTerm) := by
  obtain ⟨hstate, hterm, hgrant⟩ := hcnt
  obtain ⟨Q, hsub, hcard, hQ⟩ := htally.candidate hstate
  obtain ⟨hvoted, hsrc, hne, _⟩ := ρ.grants hinit hi.le hp hm hgrant
  have hnew : p.src ∉ Q := by
    intro hmem
    rcases (hQ _ hmem).2 with heq | hbef
    · exact hne heq
    · exact honce p now response he hp hm ⟨hstate, hterm, hgrant⟩ (hterm ▸ hbef)
  refine ⟨insert p.src Q, ?_, ?_, ?_⟩
  · exact Finset.insert_subset (List.mem_toFinset.mpr hsrc) hsub
  · rw [Finset.card_insert_of_notMem hnew, hcard]
  · intro v hv
    rcases Finset.mem_insert.mp hv with rfl | hold
    · refine ⟨hterm ▸ hvoted, .inr ?_⟩
      exact ⟨i, Nat.lt_succ_self i, p, now, response, he, hp, rfl, rfl, hm,
        ⟨hstate, hterm, hgrant⟩, hterm⟩
    · obtain ⟨hv₁, hv₂⟩ := hQ v hold
      exact ⟨hv₁, hv₂.imp_right fun h => h.mono (by omega)⟩

private theorem Tally.step (hinit : (ρ.state 0).Initial) (hi : i < ρ.length)
    (honce : ρ.CountsOnce i) {c : NodeId} (h : ρ.Tally i c) : ρ.Tally (i + 1) c := by
  rcases (ρ.change hi c).tallyChange with ⟨hterm, hstate, hvotes⟩ | hfol |
    ⟨hn, _, hvote, hstate, hone⟩ | ⟨p, now, response, he, hp, rfl, hm, hcnt, hterm, hb⟩
  · change (ρ.node (i + 1) c).currentTerm = (ρ.node i c).currentTerm at hterm
    change (ρ.node (i + 1) c).state = (ρ.node i c).state at hstate
    change (ρ.node (i + 1) c).voteCount = (ρ.node i c).voteCount at hvotes
    refine ⟨?_, ?_⟩
    · intro hcand
      obtain ⟨Q, hsub, hcard, hQ⟩ := h.candidate (hstate ▸ hcand)
      rw [hterm, hvotes]
      exact ⟨Q, hsub, hcard, fun v hv => ⟨(hQ v hv).1.mono (by omega),
        (hQ v hv).2.imp_right fun h => h.mono (by omega)⟩⟩
    · intro hlead
      obtain ⟨Q, hmaj, k, hk, hrest⟩ := h.leader (hstate ▸ hlead)
      rw [hterm]
      exact ⟨Q, hmaj, k, by omega, hrest⟩
  · exact ⟨fun h => by simp [hfol] at h, fun h => by simp [hfol] at h⟩
  · refine ⟨fun _ => ⟨{c}, ?_, ?_, ?_⟩, fun h => by simp [hstate] at h⟩
    · rw [Finset.singleton_subset_iff, List.mem_toFinset, ← ρ.ids_eq i hi.le]
      exact hn
    · rw [hone]
      exact Finset.card_singleton c
    · intro v hv
      obtain rfl := Finset.mem_singleton.mp hv
      exact ⟨ρ.voted_now (hvote.trans (congrArg some (ρ.nodeId_eq hinit v i hi.le))), .inl rfl⟩
  · obtain ⟨Q, hsub, hcard, hQ⟩ := Tally.count hinit hi honce h he hp hm hcnt
    change (ρ.node (i + 1) p.dst).currentTerm = (ρ.node i p.dst).currentTerm at hterm
    rw [← hterm] at hQ
    rcases hb with ⟨hstate, hvotes⟩ | ⟨hstate, hmany⟩
    · refine ⟨fun _ => ⟨Q, hsub, hcard.trans hvotes.symm, ?_⟩, fun h => by simp [hstate] at h⟩
      exact fun v hv => ⟨(hQ v hv).1.mono (by omega), (hQ v hv).2⟩
    · refine ⟨fun h => by simp [hstate] at h, fun _ => ⟨Q, ⟨hsub, ?_⟩, i, by omega,
        hcnt.1, hterm.symm, fun v hv => (hQ v hv).1⟩⟩
      have hsize := ρ.clusterSize_eq hinit p.dst i hi.le
      change (ρ.node i p.dst).clusterSize / 2 + 1 ≤ (ρ.node i p.dst).voteCount + 1 at hmany
      rw [List.toFinset_card_of_nodup hinit.1]
      omega

section

variable (ρ : ClusterRun) (hinit : (ρ.state 0).Initial) (honce : ∀ i, i < ρ.length → ρ.CountsOnce i)
include hinit honce

/-- A count is of distinct voters, each of whom voted. -/
theorem tally (c : NodeId) :
    ∀ i, i ≤ ρ.length → ρ.Tally i c := by
  refine ρ.invariant ?_ fun i hi => Tally.step hinit hi (honce i hi)
  obtain ⟨config, h0⟩ := ρ.node_zero hinit c
  constructor <;> intro h <;> rw [h0] at h <;> cases h

/-- Two leaders of one term are one node. -/
theorem leads_unique (hrem : ∀ i, i < ρ.length → ρ.VoteRemembered i)
    (hi : i ≤ ρ.length) (hj : j ≤ ρ.length) {a b : NodeId} {T : Nat} (ha : ρ.Leads i a T)
    (hb : ρ.Leads j b T) : a = b := by
  obtain ⟨Q, hQ, k, hk, _, _, hvotesQ⟩ := (ρ.tally hinit honce a i hi).leader ha.1
  obtain ⟨R, hR, l, hl, _, _, hvotesR⟩ := (ρ.tally hinit honce b j hj).leader hb.1
  obtain ⟨v, hvQ, hvR⟩ := hQ.inter hR
  have hva : ρ.Voted ρ.length v a T := ha.2 ▸ (hvotesQ v hvQ).mono (by omega)
  have hvb : ρ.Voted ρ.length v b T := hb.2 ▸ (hvotesR v hvR).mono (by omega)
  exact ρ.voted_unique hinit hrem v ρ.length (Nat.le_refl _) a b T hva hvb

end

end ClusterRun

/-! ## Counting votes

A vote of `v` for `c` in the term `T` is on its way as one token: first the
request, then the granting response, then it is counted.  Without duplication
there is never more than one token for the same voter, candidate and term.
-/

namespace RaftCluster

open RaftNode

variable (c v : NodeId)

variable (T : Nat)

/-- The packets that carry a vote of `v` for `c` in the term `T`. -/
def isToken (p : Packet) : Bool :=
  match p.message with
  | .voteRequest request => p.src == c && p.dst == v && request.term == T
  | .voteResponse response =>
    response.voteGranted && p.src == v && p.dst == c && response.term == T
  | _ => false

/-- The tokens in flight. -/
def tokens (net : List Packet) : Nat := net.countP (isToken c v T)

theorem tokens_append (xs ys : List Packet) :
    tokens c v T (xs ++ ys) = tokens c v T xs + tokens c v T ys :=
  List.countP_append ..

theorem tokens_erase_le (net : List Packet) (p : Packet) :
    tokens c v T (net.erase p) ≤ tokens c v T net :=
  (List.erase_sublist).countP_le

variable {net : List Packet}

theorem tokens_erase_token {c v : NodeId} {T : Nat} (hp : p ∈ net)
    (htoken : isToken c v T p = true) : tokens c v T (net.erase p) + 1 = tokens c v T net := by
  have hpos : 0 < tokens c v T net := List.countP_pos_iff.mpr ⟨p, hp, htoken⟩
  have herase := List.countP_erase (isToken c v T) net p
  rw [if_pos ⟨hp, htoken⟩] at herase
  simp only [tokens] at hpos ⊢
  omega

theorem tokens_singleton_of_not {c v : NodeId} {T : Nat} (h : isToken c v T p = false) :
    tokens c v T [p] = 0 := by
  simp [tokens, h]

private theorem tokens_voteRequests (s : RaftCluster) (hnd : s.ids.Nodup)
    (n c v : NodeId) (T : Nat) (request : RequestVoteRequest) :
    tokens c v T (s.voteRequests n request) ≤
      if c = n ∧ v ≠ n ∧ request.term = T then 1 else 0 := by
  simp only [tokens, voteRequests, List.countP_map, Function.comp_def, isToken]
  split
  · rename_i h
    calc _ ≤ (s.ids.filter fun w => w ≠ n).count v := by
          refine List.countP_mono_left ?_
          intro w _ hw
          simp only [Bool.and_eq_true, beq_iff_eq] at hw ⊢
          exact hw.1.2
      _ ≤ 1 := List.nodup_iff_count_le_one.mp (hnd.filter _) v
  · rename_i h
    refine Nat.le_of_eq (List.countP_eq_zero.mpr ?_)
    intro w hw htoken
    simp only [Bool.and_eq_true, beq_iff_eq] at htoken
    have hwn : w ≠ n := by simpa using (List.mem_filter.mp hw).2
    exact h ⟨htoken.1.1.symm, htoken.1.2 ▸ hwn, htoken.2⟩

private theorem tokens_granted_le (hp : p ∈ net) (hm : p.message = .voteRequest request)
    (hsrc : p.src = request.candidateId)
    (hterm : response.voteGranted = true → response.term = request.term) (c v : NodeId) (T : Nat) :
    tokens c v T (net.erase p ++ [⟨p.dst, request.candidateId, .voteResponse response⟩]) ≤
      tokens c v T net := by
  rw [tokens_append]
  cases htoken : isToken c v T ⟨p.dst, request.candidateId, .voteResponse response⟩ with
  | false =>
    rw [tokens_singleton_of_not htoken]
    exact tokens_erase_le c v T net p
  | true =>
    have hp' : isToken c v T p = true := by
      simp only [isToken, Bool.and_eq_true, beq_iff_eq] at htoken
      simp only [isToken, hm, hsrc, Bool.and_eq_true, beq_iff_eq]
      exact ⟨⟨htoken.1.2, htoken.1.1.2⟩, (hterm htoken.1.1.1).symm.trans htoken.2⟩
    have herase := tokens_erase_token hp hp'
    have hone : tokens c v T [⟨p.dst, request.candidateId, .voteResponse response⟩] = 1 := by
      simp [tokens, htoken]
    omega

/-- Vote requests in flight name their sender and are real ones. -/
def HonestRequests (s : RaftCluster) : Prop :=
  ∀ p ∈ s.net, ∀ request, p.message = .voteRequest request →
    p.src = request.candidateId ∧ request.preVote = false

private theorem tokens_answer_le (hhon : s.HonestRequests) (hp : p ∈ s.net) (a : RaftNode)
    (now : Nat) (c v : NodeId) (T : Nat) :
    tokens c v T (s.net.erase p ++ (answer a p now).2) ≤ tokens c v T s.net := by
  have hnone : tokens c v T (s.net.erase p ++ []) ≤ tokens c v T s.net := by
    rw [List.append_nil]
    exact tokens_erase_le c v T s.net p
  cases hm : p.message with
  | voteRequest request =>
    obtain ⟨hsrc, hreal⟩ := hhon p hp request hm
    simp only [answer, hm]
    split
    · next hcall =>
      exact tokens_granted_le hp hm hsrc
        (fun hgrant => (handleVoteRequest_granted hcall hgrant hreal).1) c v T
    · exact hnone
  | voteResponse | appendResponse =>
    simp only [answer, hm]
    exact hnone
  | appendRequest =>
    simp only [answer, hm]
    split
    · rw [tokens_append, tokens_singleton_of_not rfl]
      exact tokens_erase_le c v T s.net p
    · exact hnone

theorem Transition.tokens_le {s' : RaftCluster} (h : Transition s e s')
    (hdup : e.isDuplicate = false) (hhon : s.HonestRequests) (hnd : s.ids.Nodup) (c v : NodeId)
    (T : Nat) :
    tokens c v T s'.net ≤ tokens c v T s.net ∨
      (∃ now, e = .startElection c now) ∧ v ≠ c ∧
        T = (s.node c).currentTerm + 1 ∧ tokens c v T s'.net ≤ tokens c v T s.net + 1 := by
  cases h with
  | @campaign n now hn =>
    have hnew := tokens_voteRequests s hnd n c v T ((s.node n).startElection now).2
    simp only [send_net, set_net, tokens_append]
    split at hnew
    · next hc =>
      obtain ⟨rfl, hv, hT⟩ := hc
      exact .inr ⟨⟨now, rfl⟩, hv, hT.symm, by omega⟩
    · exact .inl (by omega)
  | append | apply | refused => exact .inl (Nat.le_refl _)
  | create =>
    refine .inl (Nat.le_of_eq ?_)
    rw [send_net, tokens_append, tokens_singleton_of_not rfl, Nat.add_zero]
  | deliver now hp => exact .inl (tokens_answer_le hhon hp _ now c v T)
  | drop => exact .inl (tokens_erase_le ..)
  | duplicate => cases hdup

private theorem net_of_deliver_voteResponse {s' : RaftCluster}
    (h : s.step (.deliver p now) = some s') (hm : p.message = .voteResponse response) :
    s'.net = s.net.erase p := by
  simp only [step, Option.ite_none_right_eq_some, Option.some.injEq] at h
  obtain ⟨_, rfl⟩ := h
  simp only [handle, answer, hm, send_net, set_net, receive_net, List.append_nil]

end RaftCluster

namespace ClusterRun

open RaftCluster RaftNode

/-- Each vote is on its way at most once, and no longer when it is counted. -/
structure OneToken (ρ : ClusterRun) (i : Nat) (c v : NodeId) (T : Nat) : Prop where
  le_one : tokens c v T (ρ.state i).net ≤ 1
  counted : ρ.Counted i v c T → tokens c v T (ρ.state i).net = 0

private theorem tokens_of_lt {ρ : ClusterRun} (hinit : (ρ.state 0).Initial) (hi : i ≤ ρ.length)
    (c v : NodeId) {T : Nat} (hT : (ρ.node i c).currentTerm < T) :
    tokens c v T (ρ.state i).net = 0 := by
  refine List.countP_eq_zero.mpr ?_
  intro p hp htoken
  cases hm : p.message with
  | voteRequest =>
    simp only [isToken, hm, Bool.and_eq_true, beq_iff_eq] at htoken
    obtain ⟨⟨rfl, rfl⟩, rfl⟩ := htoken
    have hle := (ρ.solicits hinit hi hp hm).term_le hi
    omega
  | voteResponse =>
    simp only [isToken, hm, Bool.and_eq_true, beq_iff_eq] at htoken
    obtain ⟨⟨⟨hgrant, rfl⟩, rfl⟩, rfl⟩ := htoken
    have hle := (ρ.grants hinit hi hp hm hgrant).term_le
    omega
  | _ => simp [isToken, hm] at htoken

theorem Counted.term_le {ρ : ClusterRun} {v c : NodeId} {T : Nat} (h : ρ.Counted i v c T)
    (hi : i ≤ ρ.length) : T ≤ (ρ.node i c).currentTerm := by
  obtain ⟨j, hj, p, now, response, _, _, _, _, _, hcnt, rfl⟩ := h
  rw [hcnt.2.1]
  exact ρ.term_mono hj.le hi c

private theorem isToken_of_countsVote (hm : p.message = .voteResponse response)
    (hcnt : a.CountsVote response) : isToken p.dst p.src response.term p = true := by
  simp [isToken, hm, hcnt.2.2]

private theorem OneToken.step {ρ : ClusterRun} (hinit : (ρ.state 0).Initial) (hi : i < ρ.length)
    (hdup : (ρ.event i).isDuplicate = false) {c v : NodeId} {T : Nat} (h : ρ.OneToken i c v T) :
    ρ.OneToken (i + 1) c v T := by
  have hhon : (ρ.state i).HonestRequests := by
    intro p hp request hm
    have hreq := ρ.solicits hinit hi.le hp hm
    exact ⟨hreq.src, hreq.real⟩
  have hnd : (ρ.state i).ids.Nodup := by
    rw [ρ.ids_eq i hi.le]
    exact hinit.1
  have hone := h.le_one
  rcases (ρ.transition hi).tokens_le hdup hhon hnd c v T with
    hle | ⟨⟨now, he⟩, _, hT, hle⟩
  · refine ⟨hle.trans hone, ?_⟩
    rintro ⟨j, hj, p, now, response, he, hp, rfl, rfl, hm, hcnt, rfl⟩
    rcases Nat.lt_or_ge j i with hlt | hge
    · have := h.counted ⟨j, hlt, p, now, response, he, hp, rfl, rfl, hm, hcnt, rfl⟩
      omega
    · obtain rfl : j = i := by omega
      have hstep := ρ.step_eq j hi
      rw [he] at hstep
      have hless := tokens_erase_token hp (isToken_of_countsVote hm hcnt)
      rw [net_of_deliver_voteResponse hstep hm]
      omega
  · have hzero : tokens c v T (ρ.state i).net = 0 :=
      tokens_of_lt hinit hi.le c v (by simp only [node]; omega)
    refine ⟨by omega, ?_⟩
    rintro ⟨j, hj, p, now', response, he', hp, rfl, rfl, hm, hcnt, rfl⟩
    rcases Nat.lt_or_ge j i with hlt | hge
    · have hbef : ρ.Counted i p.src p.dst response.term :=
        ⟨j, hlt, p, now', response, he', hp, rfl, rfl, hm, hcnt, rfl⟩
      have := hbef.term_le hi.le
      simp only [node] at this
      omega
    · obtain rfl : j = i := by omega
      rw [he] at he'
      cases he'

theorem countsOnce_of_no_duplicate (ρ : ClusterRun) (hinit : (ρ.state 0).Initial)
    (hdup : ∀ i, i < ρ.length → (ρ.event i).isDuplicate = false) :
    ∀ i, i < ρ.length → ρ.CountsOnce i := by
  have htoken : ∀ c v T i, i ≤ ρ.length → ρ.OneToken i c v T := by
    intro c v T
    refine ρ.invariant ⟨?_, ?_⟩ fun i hi => OneToken.step hinit hi (hdup i hi)
    · rw [initial_net hinit]
      exact Nat.zero_le 1
    · rintro ⟨j, hj, _⟩
      omega
  intro i hi p now response he hp hm hcnt hbef
  have hzero := (htoken _ _ _ i hi.le).counted hbef
  have hsome := tokens_erase_token hp (isToken_of_countsVote hm hcnt)
  omega

end ClusterRun

/-! ## Election safety -/

/-- Two members that lead one term are the same. -/
def RaftCluster.OneLeaderPerTerm (s : RaftCluster) : Prop :=
  ∀ a ∈ s.ids, ∀ b ∈ s.ids, (s.node a).state = .leader → (s.node b).state = .leader →
    (s.node a).currentTerm = (s.node b).currentTerm → a = b

/-- Election safety, as far as it goes: in every run without duplicated packets
in which no forgotten vote is asked for again. -/
theorem oneLeaderPerTerm_of_voteRemembered (ρ : ClusterRun) (hinit : (ρ.state 0).Initial)
    (hdup : ∀ i, i < ρ.length → (ρ.event i).isDuplicate = false)
    (hrem : ∀ i, i < ρ.length → ρ.VoteRemembered i) :
    ∀ i, i ≤ ρ.length → (ρ.state i).OneLeaderPerTerm := by
  intro i hi a _ b _ ha hb hterm
  have honce := ρ.countsOnce_of_no_duplicate hinit hdup
  exact ρ.leads_unique hinit honce hrem hi hi ⟨ha, rfl⟩ ⟨hb, hterm.symm⟩

/-! ### Three nodes -/

def nodeA : NodeId := ⟨1⟩
def nodeB : NodeId := ⟨2⟩
def nodeC : NodeId := ⟨3⟩

/-- Three new nodes. -/
def trio : RaftCluster := .init [nodeA, nodeB, nodeC] fun _ => .default

theorem trio_initial : trio.Initial := ⟨by decide, _, rfl⟩

/-- A request for a vote with an empty log. -/
def ballot (c v : NodeId) (term : Nat) : Packet := ⟨c, v, .voteRequest ⟨term, c, 0, 0, false⟩⟩

/-- A vote. -/
def grant (v c : NodeId) (term : Nat) : Packet :=
  ⟨v, c, .voteResponse ⟨term, true, false, some 0⟩⟩

/-- A request without entries. -/
def heartbeat (l f : NodeId) (term requestId : Nat) : Packet :=
  ⟨l, f, .appendRequest ⟨term, l, 0, 0, [], 0, requestId⟩⟩

/-- `A` and `C` both stand in term 1.  `B` votes for `A`, hears `A`'s heartbeat,
which clears its vote, and votes for `C` in the same term. -/
def twoLeaders : List Event :=
  [.startElection nodeA 0, .startElection nodeC 0,
   .deliver (ballot nodeA nodeB 1) 0, .deliver (grant nodeB nodeA 1) 0,
   .createAppendEntries nodeA nodeB 1, .deliver (heartbeat nodeA nodeB 1 1) 0,
   .deliver (ballot nodeC nodeB 1) 0, .deliver (grant nodeB nodeC 1) 0]

def twoLeadersRun : ClusterRun := Run.ofEvents RaftCluster.step trio twoLeaders (by decide)

/-- Without the condition election safety fails. -/
theorem oneLeaderPerTerm_fails : ¬ ∀ ρ : ClusterRun, (ρ.state 0).Initial →
    (∀ i, i < ρ.length → (ρ.event i).isDuplicate = false) →
    ∀ i, i ≤ ρ.length → (ρ.state i).OneLeaderPerTerm := by
  intro h
  have hsafe := h twoLeadersRun trio_initial (by decide) 8 (Nat.le_refl 8)
  have heq : nodeA = nodeC :=
    hsafe nodeA (by decide) nodeC (by decide) (by decide) (by decide) (by decide)
  exact absurd heq (by decide)

/-- `A` is elected, sends a heartbeat, and `C` takes over in term 2 with the vote
of `B`. -/
def handover : List Event :=
  [.startElection nodeA 0, .deliver (ballot nodeA nodeB 1) 0,
   .deliver (grant nodeB nodeA 1) 0, .createAppendEntries nodeA nodeB 1,
   .deliver (heartbeat nodeA nodeB 1 1) 0, .deliver (ballot nodeA nodeC 1) 0,
   .startElection nodeC 0, .deliver (ballot nodeC nodeB 2) 0,
   .deliver (grant nodeB nodeC 2) 0]

def handoverRun : ClusterRun := Run.ofEvents RaftCluster.step trio handover (by decide)

theorem oneLeaderPerTerm_handover :
    (∀ i, i < handoverRun.length → handoverRun.VoteRemembered i) ∧
      ∀ i, i ≤ handoverRun.length → (handoverRun.state i).OneLeaderPerTerm :=
  ⟨by decide, oneLeaderPerTerm_of_voteRemembered handoverRun trio_initial (by decide) (by decide)⟩

end Kaelix.Cluster.Raft
