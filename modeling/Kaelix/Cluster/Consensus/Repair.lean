import Kaelix.Cluster.Consensus.LogMatching

/-!
# Repairing a follower's log

* An accepted request with entries replaces everything after `prev_log_index`.  A late
  copy of an earlier request therefore cuts off what was stored since, although all its
  entries are there already.
* After a rejection the leader moves `next_index` back to where the follower's answer
  points.  Between logs of one history, in which every term has one leader, each
  rejection lowers it, so the exchange ends with an accepted request, and the follower
  then agrees with the leader as far as the request reaches.
-/

namespace Kaelix.Cluster.Raft

open Lib

namespace RaftNode

/-! ## Requests whose entries are there already -/

variable (self : RaftNode)

/-- Every entry of the request has the index and the term of the entry that stands at its
position in the log. -/
def Holds (request : AppendEntriesRequest) : Prop :=
  ∀ (y : Nat) (entry : LogEntry), request.entries[y]? = some entry →
    ∃ own, self.log[request.prevLogIndex + y]? = some own ∧
      own.index = entry.index ∧ own.term = entry.term

/-- The request reaches the end of the log, and its entries carry the content of those
that stand there. -/
def Covers (request : AppendEntriesRequest) : Prop :=
  self.log.length ≤ request.prevLogIndex + request.entries.length ∧
    ∀ (y : Nat) (entry own : LogEntry), request.entries[y]? = some entry →
      self.log[request.prevLogIndex + y]? = some own →
      own.command = entry.command ∧ own.timestamp = entry.timestamp ∧ own.size = entry.size

variable {request : AppendEntriesRequest}

theorem Holds.eq_drop_iff {self : RaftNode} (h : self.Holds request) :
    request.entries = self.log.drop request.prevLogIndex ↔ self.Covers request := by
  constructor
  · intro heq
    refine ⟨?_, ?_⟩
    · rw [heq, List.length_drop]
      omega
    · intro y entry own hent hown
      rw [heq, List.getElem?_drop, hown] at hent
      obtain rfl := Option.some.inj hent
      exact ⟨rfl, rfl, rfl⟩
  · rintro ⟨hreach, hcontent⟩
    apply List.ext_getElem?
    intro y
    rw [List.getElem?_drop]
    cases hent : request.entries[y]? with
    | none =>
      have hy := List.getElem?_eq_none_iff.mp hent
      exact (List.getElem?_eq_none_iff.mpr (by omega)).symm
    | some entry =>
      obtain ⟨own, hown, hindex, hterm⟩ := h y entry hent
      obtain ⟨hcommand, htimestamp, hsize⟩ := hcontent y entry own hent hown
      rw [hown]
      cases own
      cases entry
      simp_all

/-- A request that passes the checks and whose entries agree with the log in index and
term leaves the log unchanged exactly if it is a heartbeat or covers the log to its end. -/
theorem handleAppendEntries_keeps_log_iff (self : RaftNode) (request : AppendEntriesRequest)
    (now : Nat) (hterm : self.currentTerm ≤ request.term)
    (hprev : self.checkLogConsistency request.prevLogIndex request.prevLogTerm = true)
    (hholds : self.Holds request) :
    (self.handleAppendEntries request now).1.log = self.log ↔
      request.entries = [] ∨ self.Covers request := by
  rw [handleAppendEntries_accepted now hterm hprev, accepted_log, ← hholds.eq_drop_iff]
  by_cases hemp : request.entries = []
  · rw [if_pos hemp]
    exact iff_of_true rfl (.inl hemp)
  · rw [if_neg hemp, or_iff_right hemp]
    conv_lhs => rhs; rw [← List.take_append_drop request.prevLogIndex self.log]
    exact List.append_right_inj _

def followerWith (log : List LogEntry) : RaftNode :=
  { RaftNode.new ⟨0⟩ 3 .default with currentTerm := 1, log := log }

def requestFromStart (entries : List LogEntry) : AppendEntriesRequest :=
  { term := 1, leaderId := ⟨1⟩, prevLogIndex := 0, prevLogTerm := 0, entries := entries
    leaderCommit := 0, requestId := 1 }

private theorem holds_requestFromStart (entries later : List LogEntry) :
    (followerWith (entries ++ later)).Holds (requestFromStart entries) := by
  intro y entry hent
  refine ⟨entry, ?_, rfl, rfl⟩
  change (entries ++ later)[0 + y]? = some entry
  have hlt : y < entries.length := (List.getElem?_eq_some_iff.mp hent).1
  rw [Nat.zero_add, List.getElem?_append_left hlt]
  exact hent

/-- A late copy of the request that brought the first entry removes the second. -/
theorem late_request_cuts_log :
    let first := LogEntry.new 1 1 [1] ⟨0⟩
    let second := LogEntry.new 1 2 [2] ⟨0⟩
    let follower := followerWith [first, second]
    let request := requestFromStart [first]
    follower.currentTerm ≤ request.term ∧
      follower.checkLogConsistency request.prevLogIndex request.prevLogTerm = true ∧
      follower.Holds request ∧
      (follower.handleAppendEntries request 0).1.log = [first] :=
  ⟨by decide, by decide, holds_requestFromStart [_] [_], by decide⟩

/-- A copy of the whole log keeps it. -/
theorem full_request_keeps_log :
    ((followerWith [LogEntry.new 1 1 [1] ⟨0⟩]).handleAppendEntries
      (requestFromStart [LogEntry.new 1 1 [1] ⟨0⟩]) 0).1.log = [LogEntry.new 1 1 [1] ⟨0⟩] :=
  (handleAppendEntries_keeps_log_iff (followerWith [LogEntry.new 1 1 [1] ⟨0⟩])
    (requestFromStart [LogEntry.new 1 1 [1] ⟨0⟩]) 0 (by decide) (by decide)
    (holds_requestFromStart [_] [])).mpr
    (.inr ((holds_requestFromStart [_] []).eq_drop_iff.mp rfl))

/-! ## Moving back after a rejection -/

/-- Where `handle_log_conflict` moves the next index for a reported conflict. -/
def conflictNext (conflict : Nat × Option Nat) : Nat :=
  match conflict.2 with
  | some term => (self.indexAfterTerm term).getD conflict.1
  | none => conflict.1

theorem nextIndexFor_handleLogConflict (a : RaftNode) (followerId : NodeId)
    {response : AppendEntriesResponse} {conflict : Nat × Option Nat}
    (hindex : response.conflictIndex = some conflict.1)
    (hterm : response.conflictTerm = conflict.2) :
    (a.handleLogConflict followerId response).nextIndexFor followerId =
      a.conflictNext conflict := by
  unfold handleLogConflict conflictNext nextIndexFor
  rw [hindex, hterm]
  cases conflict.2 <;> simp

variable {L : Nat → List LogEntry → Prop} {a b : RaftNode}

/-- A rejection moves the next index back.  If the leader has entries of the conflicting
term at all, the last of them stands before the checked position: otherwise the term's
leader would have written the follower's entry there, and the check had passed. -/
theorem conflictNext_lt (hL : Chain L) (hrep : a.Replicates request)
    (ha : Backed LogEntry.term L a.log) (hb : Backed LogEntry.term L b.log)
    (hcons : b.checkLogConsistency request.prevLogIndex request.prevLogTerm = false) :
    a.conflictNext (b.findConflictInfo request.prevLogIndex) < request.prevLogIndex + 1 := by
  obtain ⟨hpos, ⟨hsh, hinfo⟩ | ⟨entry, i, hent, hne, hi, hinfo⟩⟩ :=
    findConflictInfo_cases hcons
  · rw [hinfo]
    change b.log.length < _
    omega
  · rw [hinfo]
    change (a.indexAfterTerm entry.term).getD (i + 1) < _
    cases hafter : a.indexAfterTerm entry.term with
    | none =>
      change i + 1 < _
      omega
    | some =>
      obtain ⟨j, last, rfl, hlast, hterm⟩ := indexAfterTerm_some hafter
      change j + 2 < _
      by_contra hge
      have hsame : a.entryAt request.prevLogIndex = some entry :=
        hb.getElem?_of_later hL ha hent hlast hterm.symm (by omega)
      obtain h0 | ⟨own, hown, hownTerm⟩ := hrep.prev
      · omega
      · obtain rfl := Option.some.inj (hown.symm.trans hsame)
        exact hne hownTerm

/-! ## The exchange -/

/-- One round of replication: the leader before it, the messages, and both nodes
after it. -/
structure Exchange where
  before : RaftNode
  request : AppendEntriesRequest
  response : AppendEntriesResponse
  follower : RaftNode
  after : RaftNode

/-- The leader sends a request, the follower answers it, and the leader handles a
rejection. -/
def exchange (leader follower : RaftNode) (followerId : NodeId) (requestId now : Nat) :
    ConsensusResult Exchange :=
  match leader.createAppendEntries followerId requestId with
  | .error e => .error e
  | .ok request =>
    match follower.handleAppendEntries request now with
    | (_, .error e) => .error e
    | (follower, .ok response) =>
      .ok { before := leader
            request := request
            response := response
            follower := follower
            after := if response.success then leader
              else leader.handleLogConflict followerId response }

/-- The exchanges up to the first accepted request, at most `rounds` of them.  Each round
draws a request id and a clock reading. -/
def backtrack (followerId : NodeId) (requestId now : Nat → Nat) :
    Nat → RaftNode → RaftNode → ConsensusResult (List Exchange)
  | 0, _, _ => .ok []
  | rounds + 1, leader, follower =>
    match exchange leader follower followerId (requestId rounds) (now rounds) with
    | .error e => .error e
    | .ok x =>
      if x.response.success then .ok [x]
      else
        match backtrack followerId requestId now rounds x.after x.follower with
        | .error e => .error e
        | .ok later => .ok (x :: later)

/-- A leader, and a follower of no later term, whose logs come from one history: each
prefix of a log was written by the leader of its last term. -/
structure Repairing (L : Nat → List LogEntry → Prop) (followerId : NodeId)
    (leader follower : RaftNode) : Prop where
  leads : leader.state = .leader
  next_le : leader.nextIndexFor followerId ≤ leader.log.length + 1
  term_le : follower.currentTerm ≤ leader.currentTerm
  leaderLog : Backed LogEntry.term L leader.log
  followerLog : Backed LogEntry.term L follower.log

theorem Replicates.accepted_take_eq (hL : Chain L) (hrep : a.Replicates request)
    (ha : Backed LogEntry.term L a.log) (hb : Backed LogEntry.term L b.log) (now : Nat)
    (hcons : b.checkLogConsistency request.prevLogIndex request.prevLogTerm = true) :
    (b.accepted request now).log.take (request.prevLogIndex + request.entries.length) =
      a.log.take (request.prevLogIndex + request.entries.length) := by
  have htake := hrep.take_prev_eq hL hb ha hcons
  rw [accepted_log]
  by_cases hemp : request.entries = []
  · rw [if_pos hemp, hemp]
    exact htake
  · rw [if_neg hemp, hrep.segment.splice_eq htake, List.take_take, Nat.min_self]

variable {followerId : NodeId}

theorem Repairing.rejected (hL : Chain L) (h : Repairing L followerId a b) (now : Nat)
    (hrep : a.Replicates request) (hprev : request.prevLogIndex = a.nextIndexFor followerId - 1)
    (hcons : b.checkLogConsistency request.prevLogIndex request.prevLogTerm = false)
    (response : AppendEntriesResponse)
    (hindex : response.conflictIndex = some (b.findConflictInfo request.prevLogIndex).1)
    (hterm : response.conflictTerm = (b.findConflictInfo request.prevLogIndex).2) :
    (a.handleLogConflict followerId response).log = a.log ∧
      (a.handleLogConflict followerId response).nextIndexFor followerId <
        a.nextIndexFor followerId ∧
      Repairing L followerId (a.handleLogConflict followerId response) (b.heard request now) := by
  have hlog : (a.handleLogConflict followerId response).log = a.log := by
    rw [handleLogConflict_eq]
  have hstate : (a.handleLogConflict followerId response).state = a.state := by
    rw [handleLogConflict_eq]
  have hcurrent : (a.handleLogConflict followerId response).currentTerm = a.currentTerm := by
    rw [handleLogConflict_eq]
  have hpos := (findConflictInfo_cases hcons).1
  have hlt : (a.handleLogConflict followerId response).nextIndexFor followerId <
      a.nextIndexFor followerId := by
    have hnext := nextIndexFor_handleLogConflict a followerId hindex hterm
    have hback := conflictNext_lt hL hrep h.leaderLog h.followerLog hcons
    omega
  refine ⟨hlog, hlt, hstate.trans h.leads, ?_, ?_, hlog.symm ▸ h.leaderLog, h.followerLog⟩
  · rw [hlog]
    exact hlt.le.trans h.next_le
  · rw [hcurrent]
    exact hrep.term.le

/-- One round: the request is accepted and the logs agree, or the next index has moved
back and another round can follow. -/
theorem Repairing.exchange (hL : Chain L) (h : Repairing L followerId a b) (requestId now : Nat) :
    ∃ x, RaftNode.exchange a b followerId requestId now = .ok x ∧ x.before = a ∧
      ((x.response.success = true ∧
          x.request.prevLogIndex + x.request.entries.length ≤ a.log.length ∧
          x.follower.log.take (x.request.prevLogIndex + x.request.entries.length) =
            a.log.take (x.request.prevLogIndex + x.request.entries.length)) ∨
        (x.response.success = false ∧ x.after.log = a.log ∧
          x.after.nextIndexFor followerId < a.nextIndexFor followerId ∧
          Repairing L followerId x.after x.follower)) := by
  obtain ⟨request, hcr, hprev⟩ := createAppendEntries_of_next_le requestId h.leads h.next_le
  have hrep := createAppendEntries_ok hcr
  have hterm : b.currentTerm ≤ request.term := hrep.term ▸ h.term_le
  unfold RaftNode.exchange
  rw [hcr]
  dsimp only
  cases hcons : b.checkLogConsistency request.prevLogIndex request.prevLogTerm with
  | true =>
    rw [handleAppendEntries_accepted now hterm hcons]
    exact ⟨_, rfl, rfl, .inl ⟨rfl, hrep.segment.length_le,
      hrep.accepted_take_eq hL h.leaderLog h.followerLog now hcons⟩⟩
  | false =>
    rw [handleAppendEntries_conflict now hterm hcons]
    have hrej := h.rejected hL now hrep hprev hcons
      ((b.heard request now).appendResponse request false
        (some (b.findConflictInfo request.prevLogIndex).1)
        (b.findConflictInfo request.prevLogIndex).2) rfl rfl
    exact ⟨_, rfl, rfl, .inr ⟨rfl, hrej⟩⟩

private theorem backtrack_of_lt (hL : Chain L) (requestId now : Nat → Nat) (rounds : Nat) :
    ∀ a b : RaftNode, Repairing L followerId a b → a.nextIndexFor followerId < rounds →
      ∃ exchanges last, backtrack followerId requestId now rounds a b = .ok exchanges ∧
        (∀ x ∈ exchanges, x.response.success = false →
          x.after.nextIndexFor followerId < x.before.nextIndexFor followerId) ∧
        exchanges.getLast? = some last ∧ last.response.success = true ∧
        last.request.prevLogIndex + last.request.entries.length ≤ a.log.length ∧
        last.follower.log.take (last.request.prevLogIndex + last.request.entries.length) =
          a.log.take (last.request.prevLogIndex + last.request.entries.length) := by
  induction rounds with
  | zero =>
    intro a b _ hlt
    omega
  | succ rounds ih =>
    intro a b h hlt
    obtain ⟨x, hx, rfl, ⟨hok, hle, htake⟩ | ⟨hfail, hlog, hback, hrest⟩⟩ :=
      h.exchange hL (requestId rounds) (now rounds)
    · refine ⟨[x], x, ?_, ?_, rfl, hok, hle, htake⟩
      · rw [backtrack, hx]
        dsimp only
        rw [if_pos hok]
      · intro y hy hfail
        rw [List.mem_singleton.mp hy, hok] at hfail
        cases hfail
    · obtain ⟨later, last, hrun, hdown, hlast, hok, hle, htake⟩ :=
        ih x.after x.follower hrest (by omega)
      refine ⟨x :: later, last, ?_, ?_, ?_, hok, hlog ▸ hle, hlog ▸ htake⟩
      · rw [backtrack, hx]
        dsimp only
        rw [if_neg (by rw [hfail]; decide), hrun]
      · intro y hy hyfail
        rcases List.mem_cons.mp hy with rfl | hy
        · exact hback
        · exact hdown y hy hyfail
      · rw [List.getLast?_cons, hlast]
        rfl

/-- Backtracking converges: each rejection lowers the next index, an accepted request
follows, and then the follower's log agrees with the leader's up to the last entry
sent. -/
theorem backtrack_converges {L : Nat → List LogEntry → Prop} (hL : Chain L)
    {followerId : NodeId} {leader follower : RaftNode}
    (h : Repairing L followerId leader follower) (requestId now : Nat → Nat) :
    ∃ exchanges last,
      backtrack followerId requestId now (leader.nextIndexFor followerId + 1)
        leader follower = .ok exchanges ∧
      (∀ x ∈ exchanges, x.response.success = false →
        x.after.nextIndexFor followerId < x.before.nextIndexFor followerId) ∧
      exchanges.getLast? = some last ∧ last.response.success = true ∧
      last.request.prevLogIndex + last.request.entries.length ≤ leader.log.length ∧
      last.follower.log.take (last.request.prevLogIndex + last.request.entries.length) =
        leader.log.take (last.request.prevLogIndex + last.request.entries.length) :=
  backtrack_of_lt hL requestId now _ leader follower h (Nat.lt_succ_self _)

/-- Three leaders that each wrote one log: the second and the third disagree after the
first entry. -/
def writtenLog : Nat → List LogEntry
  | 1 => [.new 1 1 [] ⟨0⟩]
  | 2 => [.new 1 1 [] ⟨0⟩, .new 2 2 [] ⟨0⟩, .new 2 3 [] ⟨0⟩]
  | 3 => [.new 1 1 [] ⟨0⟩, .new 3 2 [] ⟨0⟩]
  | _ => []

private theorem chain_writtenLog : Chain fun T l => l = writtenLog T := by
  rintro T l l' rfl rfl
  exact .inl (List.prefix_refl _)

private theorem backed_of_written {l : List LogEntry}
    (h : ∀ x, x < l.length → ∀ e ∈ l[x]?, l.take (x + 1) <+: writtenLog e.term) :
    Backed LogEntry.term (fun T m => m = writtenLog T) l := by
  intro x e hx
  exact ⟨_, rfl, h x (List.getElem?_eq_some_iff.mp hx).1 e hx⟩

def thirdLeader : RaftNode :=
  { RaftNode.new ⟨2⟩ 3 .default with
    currentTerm := 3
    state := .leader
    log := writtenLog 3
    nextIndex := (∅ : HashMap NodeId Nat).insert ⟨1⟩ 3 }

def secondFollower : RaftNode :=
  { RaftNode.new ⟨1⟩ 3 .default with currentTerm := 2, log := writtenLog 2 }

theorem third_leader_converges :
    ∃ exchanges last,
      backtrack ⟨1⟩ id id (thirdLeader.nextIndexFor ⟨1⟩ + 1) thirdLeader secondFollower =
        .ok exchanges ∧
      (∀ x ∈ exchanges, x.response.success = false →
        x.after.nextIndexFor ⟨1⟩ < x.before.nextIndexFor ⟨1⟩) ∧
      exchanges.getLast? = some last ∧ last.response.success = true ∧
      last.request.prevLogIndex + last.request.entries.length ≤ thirdLeader.log.length ∧
      last.follower.log.take (last.request.prevLogIndex + last.request.entries.length) =
        thirdLeader.log.take (last.request.prevLogIndex + last.request.entries.length) :=
  backtrack_converges chain_writtenLog
    ⟨rfl, by decide, by decide, backed_of_written (by decide), backed_of_written (by decide)⟩
    id id

end RaftNode

end Kaelix.Cluster.Raft
