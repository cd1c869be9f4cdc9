import Kaelix.Cluster.Consensus.Election

/-!
# Log matching

Given one leader per term, two logs that hold an entry of one index and one term
are identical up to it.

The logs that a term's leader has had while it led form a chain, because a leader
only appends (`Leads.log_prefix`).  Every log in the cluster is backed by these
chains in the sense of `Backed`, and log matching is `Backed.take_eq`.
-/

namespace Kaelix.Cluster.Raft

open Lib

variable {n : NodeId} {b : RaftNode}

namespace RaftCluster

open RaftNode

/-- A step keeps a node's log, appends an entry of the leader's term, or accepts a
request. -/
def LogChange (s : RaftCluster) (e : Event) (n : NodeId) (b : RaftNode) : Prop :=
  b.log = (s.node n).log ∨
  ((s.node n).state = .leader ∧ b.state = .leader ∧
    b.currentTerm = (s.node n).currentTerm ∧
    ∃ command timestamp, b.log = (s.node n).log ++ [(s.node n).newEntry command timestamp]) ∨
  ∃ p now request, e = .deliver p now ∧ p ∈ s.net ∧ p.dst = n ∧
    p.message = .appendRequest request ∧ (s.node n).currentTerm ≤ request.term ∧
    (s.node n).checkLogConsistency request.prevLogIndex request.prevLogTerm = true ∧
    b = (s.node n).accepted request now

variable {s : RaftCluster} {e : Event}

theorem Change.logChange (h : Change s e n b) : LogChange s e n b := by
  cases h with
  | same | campaign | follow | count | win | hear => exact .inl rfl
  | append he hn hstate => exact .inr (.inl ⟨hstate, hstate, rfl, _, _, rfl⟩)
  | apply =>
    rw [applyCommittedEntries_eq]
    exact .inl rfl
  | vote he hp hdst hm hterm =>
    rcases caughtUp_cases hterm with ⟨_, hcu⟩ | ⟨_, hcu⟩ <;> rw [hcu] <;> exact .inl rfl
  | accept he hp hdst hm hterm hcons =>
    exact .inr (.inr ⟨_, _, _, he, hp, hdst, hm, hterm, hcons, rfl⟩)
  | acknowledge =>
    rw [tryAdvanceCommitIndex_eq, recordAck_eq]
    exact .inl rfl
  | conflict =>
    rw [handleLogConflict_eq]
    exact .inl rfl

theorem Change.mem_ids (h : Change s e n b) (hb : b.state ≠ .follower)
    (hold : (s.node n).state ≠ .follower → n ∈ s.ids) : n ∈ s.ids := by
  rcases h.tallyChange with ⟨_, hstate, _⟩ | hfol | ⟨hn, _⟩ | ⟨_, _, _, _, _, _, _, hcnt, _⟩
  · exact hold (hstate ▸ hb)
  · exact absurd hfol hb
  · exact hn
  · exact hold (by rw [hcnt.1]; simp)

end RaftCluster

namespace ClusterRun

open RaftCluster RaftNode

/-! ## One leader per term -/

/-- No term has two leaders in the whole run. -/
def ElectionSafe (ρ : ClusterRun) : Prop :=
  ∀ i, i ≤ ρ.length → ∀ j, j ≤ ρ.length →
    ∀ a ∈ (ρ.state 0).ids, ∀ b ∈ (ρ.state 0).ids,
      (ρ.node i a).state = .leader → (ρ.node j b).state = .leader →
      (ρ.node i a).currentTerm = (ρ.node j b).currentTerm → a = b

theorem mem_ids_of_not_follower (ρ : ClusterRun) (hinit : (ρ.state 0).Initial)
    (n : NodeId) : ∀ i, i ≤ ρ.length → (ρ.node i n).state ≠ .follower →
      n ∈ (ρ.state 0).ids := by
  refine ρ.invariant ?_ ?_
  · intro h
    obtain ⟨config, h0⟩ := ρ.node_zero hinit n
    rw [h0] at h
    exact absurd rfl h
  · intro i hi ih hstate
    rw [← ρ.ids_eq i hi.le] at ih ⊢
    exact (ρ.change hi n).mem_ids hstate ih

variable {ρ : ClusterRun} {i j T : Nat}

theorem ElectionSafe.eq (hsafe : ρ.ElectionSafe) (hinit : (ρ.state 0).Initial) (hi : i ≤ ρ.length)
    (hj : j ≤ ρ.length) {a b : NodeId} (ha : ρ.Leads i a T) (hb : ρ.Leads j b T) : a = b := by
  have hmem : ∀ k n, k ≤ ρ.length → ρ.Leads k n T → n ∈ (ρ.state 0).ids := by
    intro k n hk hlead
    exact ρ.mem_ids_of_not_follower hinit n k hk (by rw [hlead.1]; simp)
  exact hsafe i hi j hj a (hmem i a hi ha) b (hmem j b hj hb) ha.1 hb.1 (ha.2.trans hb.2.symm)

theorem electionSafe_of_voteRemembered (hinit : (ρ.state 0).Initial)
    (hdup : ∀ i, i < ρ.length → (ρ.event i).isDuplicate = false)
    (hrem : ∀ i, i < ρ.length → ρ.VoteRemembered i) : ρ.ElectionSafe := by
  intro i hi j hj a _ b _ ha hb hterm
  have honce := ρ.countsOnce_of_no_duplicate hinit hdup
  exact ρ.leads_unique hinit honce hrem hi hj ⟨ha, rfl⟩ ⟨hb, hterm.symm⟩

/-- `l` is a log that the leader of the term `T` has had, up to moment `i`. -/
def LeaderLog (ρ : ClusterRun) (i : Nat) (T : Nat) (l : List LogEntry) : Prop :=
  ∃ j, j ≤ i ∧ ∃ n, ρ.Leads j n T ∧ (ρ.node j n).log = l

variable {l : List LogEntry}

theorem LeaderLog.mono (h : ρ.LeaderLog i T l) (hij : i ≤ j) : ρ.LeaderLog j T l := by
  obtain ⟨k, hk, hrest⟩ := h
  exact ⟨k, by omega, hrest⟩

variable {i : Nat}

theorem Leads.leaderLog (h : ρ.Leads i n T) : ρ.LeaderLog i T (ρ.node i n).log :=
  ⟨i, Nat.le_refl i, n, h, rfl⟩

theorem leaderLog_chain (hsafe : ρ.ElectionSafe)
    (hinit : (ρ.state 0).Initial) (hi : i ≤ ρ.length) : Chain (ρ.LeaderLog i) := by
  rintro T l l' ⟨j, hj, n, hn, rfl⟩ ⟨j', hj', n', hn', rfl⟩
  obtain rfl := hsafe.eq hinit (show j ≤ ρ.length by omega) (by omega) hn hn'
  rcases Nat.le_total j j' with h | h
  · exact .inl (hn.log_prefix hn' h (by omega))
  · exact .inr (hn'.log_prefix hn h (by omega))

/-! ## Requests in flight -/

/-- The request in flight was built by its sender as leader, at moment `j`. -/
structure SentBy (ρ : ClusterRun) (p : Packet) (request : AppendEntriesRequest)
    (j : Nat) : Prop where
  replicates : (ρ.node j p.src).Replicates request
  src : p.src ∈ (ρ.state 0).ids
  dst : p.dst ∈ (ρ.state 0).ids
  ne : p.dst ≠ p.src
  leaderId : request.leaderId = p.src

variable {request : AppendEntriesRequest}

theorem SentBy.leads {p : Packet} (h : ρ.SentBy p request j) : ρ.Leads j p.src request.term :=
  ⟨h.replicates.state, h.replicates.term.symm⟩

/-- A request on the net was sent by a leader. -/
theorem sentBy (ρ : ClusterRun) (hinit : (ρ.state 0).Initial)
    (hi : i ≤ ρ.length) {p : Packet} (hp : p ∈ (ρ.state i).net)
    (hm : p.message = .appendRequest request) : ∃ j, j < i ∧ ρ.SentBy p request j := by
  obtain ⟨j, hj, hsent⟩ := ρ.origin hinit i hi p hp
  cases hsent with
  | @appendRequest n follower requestId request' he hn hf hne hcall hnode =>
    obtain rfl := Message.appendRequest.inj hm
    have hrep := createAppendEntries_ok hcall
    have hids := ρ.ids_eq j (by omega)
    refine ⟨j, hj, hrep, hids ▸ hn, hids ▸ hf, hne, ?_⟩
    exact hrep.leaderId.trans (ρ.nodeId_eq hinit n j (by omega))
  | voteRequest | voteResponse | appendResponse => cases hm

/-! ## Every log is backed by the leaders' logs -/

/-- The entries are numbered from 1 on. -/
def Dense (l : List LogEntry) : Prop := ∀ x e, l[x]? = some e → e.index = x + 1

variable {l l' : List LogEntry}

theorem Dense.of_isPrefix (h : Dense l) (hpre : l' <+: l) : Dense l' := by
  obtain ⟨t, rfl⟩ := hpre
  intro x e hx
  have hlt := (List.getElem?_eq_some_iff.mp hx).1
  exact h x e (by rw [List.getElem?_append_left hlt, hx])

theorem Dense.concat {e : LogEntry} (h : Dense l)
    (he : e.index = l.length + 1) : Dense (l ++ [e]) := by
  intro x e' hx
  rcases Nat.lt_or_ge x l.length with hlt | hge
  · rw [List.getElem?_append_left hlt] at hx
    exact h x e' hx
  · have hlen := (List.getElem?_eq_some_iff.mp hx).1
    simp only [List.length_append, List.length_singleton] at hlen
    obtain rfl : x = l.length := by omega
    obtain rfl : e = e' := by simpa using hx
    exact he

variable {a : RaftNode}

theorem lastLogInfo_of_dense (h : Dense a.log) :
    a.lastLogInfo = (a.log.length, lastTerm LogEntry.term a.log) := by
  unfold lastLogInfo lastTerm
  cases hlast : a.log.getLast? with
  | none =>
    rw [List.getLast?_eq_none_iff] at hlast
    rw [hlast]
    rfl
  | some =>
    have hne : a.log ≠ [] := by
      intro h0
      rw [h0] at hlast
      cases hlast
    have hlen := List.length_pos_iff.mpr hne
    rw [List.getLast?_eq_getElem?] at hlast
    have hindex := h _ _ hlast
    rw [Nat.sub_add_cancel hlen] at hindex
    rw [← hindex]
    rfl

/-- What holds of every log of a run. -/
structure GoodLog (ρ : ClusterRun) (i : Nat) (T : Nat) (l : List LogEntry) : Prop where
  backed : Backed LogEntry.term (ρ.LeaderLog i) l
  dense : Dense l
  ascending : Ascending LogEntry.term l
  term_le : ∀ e ∈ l, e.term ≤ T

variable {U : Nat}

theorem GoodLog.mono (h : ρ.GoodLog i T l) (hij : i ≤ j) (hTU : T ≤ U) : ρ.GoodLog j U l where
  backed := h.backed.mono fun _ _ hl => hl.mono hij
  dense := h.dense
  ascending := h.ascending
  term_le e he := (h.term_le e he).trans hTU

theorem GoodLog.of_isPrefix (h : ρ.GoodLog i T l) (hpre : l' <+: l) : ρ.GoodLog i T l' where
  backed := h.backed.of_isPrefix hpre
  dense := h.dense.of_isPrefix hpre
  ascending := h.ascending.of_isPrefix hpre
  term_le e he := h.term_le e (hpre.subset he)

theorem GoodLog.append {command : List UInt8} {timestamp : SerializableInstant}
    (h : ρ.GoodLog i a.currentTerm a.log)
    (hlead : ρ.LeaderLog (i + 1) a.currentTerm (a.log ++ [a.newEntry command timestamp])) :
    ρ.GoodLog (i + 1) a.currentTerm (a.log ++ [a.newEntry command timestamp]) where
  backed := (h.backed.mono fun _ _ hl => hl.mono (by omega)).concat hlead
  dense := h.dense.concat rfl
  ascending := h.ascending.concat h.term_le
  term_le e he := by
    rcases List.mem_append.mp he with hold | hnew
    · exact h.term_le e hold
    · rw [List.mem_singleton.mp hnew]
      exact Nat.le_refl _

variable (hsafe : ρ.ElectionSafe)
include hsafe

variable (hinit : (ρ.state 0).Initial)
include hinit

private theorem take_prev_eq (hi : i ≤ ρ.length) (ha : ρ.GoodLog i T a.log)
    (hb : ρ.GoodLog i U b.log)
    (hrep : b.Replicates request)
    (hcons : a.checkLogConsistency request.prevLogIndex request.prevLogTerm = true) :
    a.log.take request.prevLogIndex = b.log.take request.prevLogIndex :=
  hrep.take_prev_eq (leaderLog_chain hsafe hinit hi) ha.backed hb.backed hcons

section

variable (hi : i ≤ ρ.length) (ha : ρ.GoodLog i T a.log) (hb : ρ.GoodLog i U b.log) (now : Nat)
  (hrep : b.Replicates request)
  (hcons : a.checkLogConsistency request.prevLogIndex request.prevLogTerm = true)
include hi ha hb hrep hcons

private theorem accepted_log_eq (hne : request.entries ≠ []) :
    (a.accepted request now).log =
      b.log.take (request.prevLogIndex + request.entries.length) := by
  rw [accepted_log, if_neg hne]
  exact hrep.segment.splice_eq (take_prev_eq hsafe hinit hi ha hb hrep hcons)

theorem accepted_log_prefix (hcover : request.entries = [] → a.log.length ≤ request.prevLogIndex) :
    (a.accepted request now).log =
      b.log.take (request.prevLogIndex + request.entries.length) := by
  by_cases hne : request.entries = []
  · have htake := take_prev_eq hsafe hinit hi ha hb hrep hcons
    rw [List.take_of_length_le (hcover hne)] at htake
    rw [accepted_log, if_pos hne, htake, hne]
    rfl
  · exact accepted_log_eq hsafe hinit hi ha hb now hrep hcons hne

end

private theorem goodLog_step (hi : i < ρ.length)
    (h : ∀ j, j ≤ i → ∀ n, ρ.GoodLog j (ρ.node j n).currentTerm (ρ.node j n).log) (n : NodeId) :
    ρ.GoodLog (i + 1) (ρ.node (i + 1) n).currentTerm (ρ.node (i + 1) n).log := by
  have hold := h i (Nat.le_refl i) n
  have hterm := ρ.term_mono (Nat.le_succ i) hi n
  rcases (ρ.change hi n).logChange with hlog |
    ⟨hlead, hlead', hterm', command, timestamp, hlog⟩ |
    ⟨p, now, request, he, hp, rfl, hm, hle, hcons, hb⟩
  · rw [hlog]
    exact hold.mono (by omega) hterm
  · have hl : ρ.LeaderLog (i + 1) (ρ.node (i + 1) n).currentTerm (ρ.node (i + 1) n).log :=
      Leads.leaderLog ⟨hlead', rfl⟩
    rw [hlog, hterm'] at hl ⊢
    exact hold.append hl
  · obtain ⟨j, hj, hsent⟩ := ρ.sentBy hinit hi.le hp hm
    have hsrc := h j (by omega) p.src
    rw [hb, accepted_currentTerm]
    by_cases hne : request.entries = []
    · rw [accepted_log, if_pos hne]
      exact hold.mono (by omega) hle
    · have hsrc' := hsrc.mono (show j ≤ i by omega) (Nat.le_refl _)
      have heq := accepted_log_eq hsafe hinit hi.le hold hsrc' now hsent.replicates hcons hne
      change ((ρ.node i p.dst).accepted request now).log = _ at heq
      change ρ.GoodLog (i + 1) request.term ((ρ.node i p.dst).accepted request now).log
      rw [heq, hsent.replicates.term]
      exact (hsrc.mono (by omega) (Nat.le_refl _)).of_isPrefix (List.take_prefix _ _)

/-- Every log is made of leaders' logs. -/
theorem goodLog (hi : i ≤ ρ.length) (n : NodeId) :
    ρ.GoodLog i (ρ.node i n).currentTerm (ρ.node i n).log := by
  refine ρ.strongInvariant (P := fun j => ∀ m,
    ρ.GoodLog j (ρ.node j m).currentTerm (ρ.node j m).log) ?_ ?_ i hi n
  · intro m
    obtain ⟨config, h0⟩ := ρ.node_zero hinit m
    have hnil : (ρ.node 0 m).log = [] := by rw [h0]; rfl
    rw [hnil]
    exact ⟨Backed.nil, by intro x e hx; simp at hx, List.Pairwise.nil, by intro e he; cases he⟩
  · intro k hk ih m
    exact goodLog_step hsafe hinit hk ih m

end ClusterRun

/-! ## Log matching -/

/-- Two logs that contain an entry of one index and one term are identical in all
entries up to and including that index. -/
def RaftCluster.LogsMatch (s : RaftCluster) : Prop :=
  ∀ a ∈ s.ids, ∀ b ∈ s.ids, ∀ e ∈ (s.node a).log, ∀ e' ∈ (s.node b).log,
    e.index = e'.index → e.term = e'.term →
    ∀ k, 1 ≤ k → k ≤ e.index →
      ∃ x, (s.node a).entryAt k = some x ∧ (s.node b).entryAt k = some x

/-- Log matching: in every run in which no two nodes ever lead one term. -/
theorem logsMatch_of_electionSafe (ρ : ClusterRun) (hinit : (ρ.state 0).Initial)
    (hsafe : ρ.ElectionSafe) : ∀ i, i ≤ ρ.length → (ρ.state i).LogsMatch := by
  intro i hi a _ b _ e he e' he' hindex hterm k hk hke
  have ha := ClusterRun.goodLog hsafe hinit hi a
  have hb := ClusterRun.goodLog hsafe hinit hi b
  obtain ⟨x, hx⟩ := List.mem_iff_getElem?.mp he
  obtain ⟨x', hx'⟩ := List.mem_iff_getElem?.mp he'
  have hpos := ha.dense x e hx
  have hpos' := hb.dense x' e' hx'
  obtain rfl : x = x' := by omega
  have htake := ha.backed.take_eq (ClusterRun.leaderLog_chain hsafe hinit hi) hb.backed
    hx hx' hterm
  have hlen : x < (ρ.node i a).log.length := (List.getElem?_eq_some_iff.mp hx).1
  have hread : ∀ l : List LogEntry, l[k - 1]? = (l.take (x + 1))[k - 1]? := by
    intro l
    rw [List.getElem?_take_of_lt (by omega)]
  obtain ⟨z, hz⟩ : ∃ z, (ρ.node i a).log[k - 1]? = some z :=
    ⟨_, List.getElem?_eq_getElem (by omega)⟩
  refine ⟨z, hz, ?_⟩
  change (ρ.node i b).log[k - 1]? = some z
  rw [hread, ← htake, ← hread]
  exact hz

def firstEntry : LogEntry := .new 1 1 [7] ⟨0⟩

def wholeLog (l f : NodeId) (term : Nat) (entries : List LogEntry)
    (commit requestId : Nat) : Packet :=
  ⟨l, f, .appendRequest ⟨term, l, 0, 0, entries, commit, requestId⟩⟩

def ack (f l : NodeId) (term k requestId : Nat) : Packet :=
  ⟨f, l, .appendResponse ⟨term, true, some k, none, none, requestId⟩⟩

def replication : List Event :=
  [.startElection nodeA 0, .deliver (ballot nodeA nodeB 1) 0,
   .deliver (grant nodeB nodeA 1) 0, .appendEntry nodeA [7] ⟨0⟩,
   .createAppendEntries nodeA nodeB 1,
   .deliver (wholeLog nodeA nodeB 1 [firstEntry] 0 1) 0,
   .deliver (ack nodeB nodeA 1 1 1) 0]

def replicationRun : ClusterRun := Run.ofEvents RaftCluster.step trio replication (by decide)

theorem logsMatch_replication : replicationRun.ElectionSafe ∧
    ∀ i, i ≤ replicationRun.length → (replicationRun.state i).LogsMatch :=
  have hsafe : replicationRun.ElectionSafe :=
    ClusterRun.electionSafe_of_voteRemembered trio_initial (by decide) (by decide)
  ⟨hsafe, logsMatch_of_electionSafe replicationRun trio_initial hsafe⟩

end Kaelix.Cluster.Raft
