import Kaelix.Lib.Run
import Kaelix.Cluster.Consensus.NodeSpec

/-!
# A cluster of Raft nodes over an unreliable network

The nodes of a cluster exchange the messages that `RaftNode` produces.  A
candidate sends its vote request to every other node, a leader calls
`create_append_entries` for another node, and a response goes back to the
candidate or leader named in the request.  Of `raft/cluster.rs` two things are not
here: the heartbeats of `send_optimized_heartbeat`, which carry term 1 whatever the
leader's term is, and that `route_raft_message` discards append responses.

The network is the list of packets in flight.  Any of them may be delivered next,
so delays and reordering are the choice of the next event; a packet may be
dropped, and `duplicate` puts a second copy in flight.  Elections start at any
time: the timers of the source only decide when.
-/

namespace Kaelix.Cluster.Raft

open Lib

/-- The messages of the protocol. -/
inductive Message
  | voteRequest (request : RequestVoteRequest)
  | voteResponse (response : RequestVoteResponse)
  | appendRequest (request : AppendEntriesRequest)
  | appendResponse (response : AppendEntriesResponse)
deriving DecidableEq

/-- A message on its way. -/
structure Packet where
  src : NodeId
  dst : NodeId
  message : Message
deriving DecidableEq

/-- The nodes of a cluster and the packets in flight.  `node` is read at the
members `ids` only. -/
structure RaftCluster where
  ids : List NodeId
  node : NodeId → RaftNode
  net : List Packet

/-- What can happen in a cluster. -/
inductive Event
  | startElection (n : NodeId) (now : Nat)
  | appendEntry (n : NodeId) (command : List UInt8) (timestamp : SerializableInstant)
  | createAppendEntries (n follower : NodeId) (requestId : Nat)
  | applyCommittedEntries (n : NodeId) (applyFn : Nat → LogEntry → ConsensusResult Unit)
  | deliver (p : Packet) (now : Nat)
  | drop (p : Packet)
  | duplicate (p : Packet)

instance : Inhabited Event := ⟨.startElection default 0⟩

variable {e : Event}

namespace Event

def isDuplicate : Event → Bool
  | .duplicate _ => true
  | _ => false

/-- The packet that the event delivers. -/
def delivered : Event → Option Packet
  | .deliver p _ => some p
  | _ => none

theorem mem_delivered {p : Packet} : p ∈ e.delivered ↔ ∃ now, e = .deliver p now := by
  cases e <;> simp [delivered]

end Event

variable {request : AppendEntriesRequest} {response : AppendEntriesResponse}

namespace Packet

variable (p : Packet)

def voteRequest : Option RequestVoteRequest :=
  match p.message with
  | .voteRequest request => some request
  | _ => none

def voteResponse : Option RequestVoteResponse :=
  match p.message with
  | .voteResponse response => some response
  | _ => none

def appendRequest : Option AppendEntriesRequest :=
  match p.message with
  | .appendRequest request => some request
  | _ => none

def appendResponse : Option AppendEntriesResponse :=
  match p.message with
  | .appendResponse response => some response
  | _ => none

theorem mem_voteRequest {p : Packet} {request : RequestVoteRequest} :
    request ∈ p.voteRequest ↔ p.message = .voteRequest request := by
  cases hm : p.message <;> simp [voteRequest, hm]

theorem mem_voteResponse {p : Packet} {response : RequestVoteResponse} :
    response ∈ p.voteResponse ↔ p.message = .voteResponse response := by
  cases hm : p.message <;> simp [voteResponse, hm]

theorem mem_appendRequest {p : Packet} :
    request ∈ p.appendRequest ↔ p.message = .appendRequest request := by
  cases hm : p.message <;> simp [appendRequest, hm]

theorem mem_appendResponse {p : Packet} :
    response ∈ p.appendResponse ↔ p.message = .appendResponse response := by
  cases hm : p.message <;> simp [appendResponse, hm]

end Packet

namespace RaftCluster

/-- A cluster of new nodes, each with `cluster_size` equal to their number. -/
def init (ids : List NodeId) (config : NodeId → RaftConfig) : RaftCluster :=
  { ids := ids
    node := fun n => RaftNode.new n ids.length (config n)
    net := [] }

section

variable (s : RaftCluster)

/-- All nodes are new, and nothing is in flight. -/
def Initial : Prop := s.ids.Nodup ∧ ∃ config, s = init s.ids config

/-- The cluster with one node changed. -/
def set (n : NodeId) (a : RaftNode) : RaftCluster :=
  { s with node := fun m => if m = n then a else s.node m }

/-- More packets in flight. -/
def send (ps : List Packet) : RaftCluster := { s with net := s.net ++ ps }

/-- One packet less in flight. -/
def receive (p : Packet) : RaftCluster := { s with net := s.net.erase p }

@[simp] theorem set_ids (s : RaftCluster) (n : NodeId) (a : RaftNode) :
    (s.set n a).ids = s.ids := rfl

@[simp] theorem set_net (s : RaftCluster) (n : NodeId) (a : RaftNode) :
    (s.set n a).net = s.net := rfl

theorem set_node (n : NodeId) (a : RaftNode) (m : NodeId) :
    (s.set n a).node m = if m = n then a else s.node m := rfl

@[simp] theorem set_node_self (s : RaftCluster) (n : NodeId) (a : RaftNode) :
    (s.set n a).node n = a := by simp [set_node]

private theorem set_node_ne {n m : NodeId} (a : RaftNode) (h : m ≠ n) :
    (s.set n a).node m = s.node m := by simp [set_node, h]

end

variable {s : RaftCluster}

theorem forall_set_node {P : NodeId → RaftNode → Prop} {n : NodeId} {a : RaftNode}
    (hold : ∀ m, P m (s.node m)) (hnew : P n a) (m : NodeId) : P m ((s.set n a).node m) := by
  by_cases h : m = n
  · subst h
    rw [set_node_self]
    exact hnew
  · rw [set_node_ne s a h]
    exact hold m

section

variable (s : RaftCluster)

@[simp] theorem send_ids (ps : List Packet) : (s.send ps).ids = s.ids := rfl

@[simp] theorem send_node (ps : List Packet) : (s.send ps).node = s.node := rfl

@[simp] theorem send_net (ps : List Packet) :
    (s.send ps).net = s.net ++ ps := rfl

@[simp] theorem receive_ids (p : Packet) : (s.receive p).ids = s.ids := rfl

@[simp] theorem receive_node (p : Packet) : (s.receive p).node = s.node := rfl

@[simp] theorem receive_net (p : Packet) :
    (s.receive p).net = s.net.erase p := rfl

end

/-- What a node does with a packet: the node afterwards, and the packets it answers with.  A call
that returns an error sends nothing. -/
def answer (a : RaftNode) (p : Packet) (now : Nat) : RaftNode × List Packet :=
  match p.message with
  | .voteRequest request =>
    match a.handleVoteRequest request now with
    | (a, .ok response) => (a, [⟨p.dst, request.candidateId, .voteResponse response⟩])
    | (a, .error _) => (a, [])
  | .voteResponse response => ((a.handleVoteResponse response now).1, [])
  | .appendRequest request =>
    match a.handleAppendEntries request now with
    | (a, .ok response) => (a, [⟨p.dst, request.leaderId, .appendResponse response⟩])
    | (a, .error _) => (a, [])
  | .appendResponse response => ((a.handleAppendEntriesResponse p.src response).1, [])

section

variable (s : RaftCluster)

/-- The vote requests of a candidate to the other nodes. -/
def voteRequests (n : NodeId) (request : RequestVoteRequest) : List Packet :=
  (s.ids.filter fun v => v ≠ n).map fun v => ⟨n, v, .voteRequest request⟩

/-- The receiver of a packet handles it. -/
def handle (p : Packet) (now : Nat) : RaftCluster :=
  (s.set p.dst (answer (s.node p.dst) p now).1).send (answer (s.node p.dst) p now).2

/-- One step of the cluster. -/
def step : Event → Option RaftCluster
  | .startElection n now =>
    if n ∈ s.ids then
      let (a, request) := (s.node n).startElection now
      some ((s.set n a).send (s.voteRequests n request))
    else none
  | .appendEntry n command timestamp =>
    if n ∈ s.ids then some (s.set n ((s.node n).appendEntry command timestamp).1)
    else none
  | .createAppendEntries n follower requestId =>
    if n ∈ s.ids ∧ follower ∈ s.ids ∧ follower ≠ n then
      match (s.node n).createAppendEntries follower requestId with
      | .ok request => some (s.send [⟨n, follower, .appendRequest request⟩])
      | .error _ => some s
    else none
  | .applyCommittedEntries n applyFn =>
    if n ∈ s.ids then some (s.set n ((s.node n).applyCommittedEntries applyFn).1)
    else none
  | .deliver p now =>
    if p ∈ s.net then some ((s.receive p).handle p now) else none
  | .drop p => if p ∈ s.net then some (s.receive p) else none
  | .duplicate p => if p ∈ s.net then some (s.send [p]) else none

/-! ## What a step can do -/

/-- The steps with their guards: which node makes a call, and what is sent. -/
inductive Transition (s : RaftCluster) : Event → RaftCluster → Prop
  | campaign {n : NodeId} (now : Nat) (hn : n ∈ s.ids) :
      Transition s (.startElection n now)
        ((s.set n ((s.node n).startElection now).1).send
          (s.voteRequests n ((s.node n).startElection now).2))
  | append {n : NodeId} (command : List UInt8) (timestamp : SerializableInstant)
      (hn : n ∈ s.ids) :
      Transition s (.appendEntry n command timestamp)
        (s.set n ((s.node n).appendEntry command timestamp).1)
  | create {n follower : NodeId} {requestId : Nat} {request : AppendEntriesRequest}
      (hn : n ∈ s.ids) (hf : follower ∈ s.ids) (hne : follower ≠ n)
      (hreq : (s.node n).createAppendEntries follower requestId = .ok request) :
      Transition s (.createAppendEntries n follower requestId)
        (s.send [⟨n, follower, .appendRequest request⟩])
  | refused (e : Event) : Transition s e s
  | apply {n : NodeId} (applyFn : Nat → LogEntry → ConsensusResult Unit) :
      Transition s (.applyCommittedEntries n applyFn)
        (s.set n ((s.node n).applyCommittedEntries applyFn).1)
  | deliver {p : Packet} (now : Nat) (hp : p ∈ s.net) :
      Transition s (.deliver p now) ((s.receive p).handle p now)
  | drop (p : Packet) : Transition s (.drop p) (s.receive p)
  | duplicate {p : Packet} (hp : p ∈ s.net) : Transition s (.duplicate p) (s.send [p])

end

theorem step_transition {s s' : RaftCluster} (h : s.step e = some s') : Transition s e s' := by
  cases e with
  | createAppendEntries n follower requestId =>
    simp only [step, Option.ite_none_right_eq_some] at h
    obtain ⟨⟨hn, hf, hne⟩, h⟩ := h
    split at h
    · next hreq =>
      obtain rfl := Option.some.inj h
      exact .create hn hf hne hreq
    · obtain rfl := Option.some.inj h
      exact .refused _
  | _ =>
    simp only [step, Option.ite_none_right_eq_some, Option.some.injEq] at h
    obtain ⟨hguard, rfl⟩ := h
    first
      | exact .campaign _ hguard
      | exact .append _ _ hguard
      | exact .apply _
      | exact .deliver _ hguard
      | exact .drop _
      | exact .duplicate hguard

/-! ## What a step does to one node -/

/-- Every way in which a step can change the node `n`: the outcome together with
the event, and the packet handled, that brought it about. -/
inductive Change (s : RaftCluster) (e : Event) (n : NodeId) : RaftNode → Prop
  | same : Change s e n (s.node n)
  | campaign {now : Nat} (he : e = .startElection n now) (hn : n ∈ s.ids) :
      Change s e n ((s.node n).startElection now).1
  | append {command : List UInt8} {timestamp : SerializableInstant}
      (he : e = .appendEntry n command timestamp) (hn : n ∈ s.ids)
      (hstate : (s.node n).state = .leader) :
      Change s e n ((s.node n).appended command timestamp)
  | apply {applyFn : Nat → LogEntry → ConsensusResult Unit}
      (he : e = .applyCommittedEntries n applyFn) :
      Change s e n ((s.node n).applyCommittedEntries applyFn).1
  | follow {term : Nat} (hterm : (s.node n).currentTerm < term) :
      Change s e n ((s.node n).followed term)
  | vote {p : Packet} {now : Nat} {request : RequestVoteRequest}
      (he : e = .deliver p now) (hp : p ∈ s.net) (hdst : p.dst = n)
      (hm : p.message = .voteRequest request)
      (hterm : (s.node n).currentTerm ≤ request.term)
      (hgrant : ((s.node n).caughtUp request.term).grantsVote request = true)
      (hreal : request.preVote = false) :
      Change s e n (((s.node n).caughtUp request.term).withVote request.candidateId now)
  | count {p : Packet} {now : Nat} {response : RequestVoteResponse}
      (he : e = .deliver p now) (hp : p ∈ s.net) (hdst : p.dst = n)
      (hm : p.message = .voteResponse response) (hcnt : (s.node n).CountsVote response)
      (hfew : (s.node n).voteCount + 1 < (s.node n).clusterSize / 2 + 1) :
      Change s e n (s.node n).counted
  | win {p : Packet} {now : Nat} {response : RequestVoteResponse}
      (he : e = .deliver p now) (hp : p ∈ s.net) (hdst : p.dst = n)
      (hm : p.message = .voteResponse response) (hcnt : (s.node n).CountsVote response)
      (hmany : (s.node n).clusterSize / 2 + 1 ≤ (s.node n).voteCount + 1) :
      Change s e n ((s.node n).counted.elected now)
  | hear {p : Packet} {now : Nat} {request : AppendEntriesRequest}
      (he : e = .deliver p now) (hp : p ∈ s.net) (hdst : p.dst = n)
      (hm : p.message = .appendRequest request)
      (hterm : (s.node n).currentTerm ≤ request.term)
      (hcons : (s.node n).checkLogConsistency request.prevLogIndex request.prevLogTerm = false) :
      Change s e n ((s.node n).heard request now)
  | accept {p : Packet} {now : Nat} {request : AppendEntriesRequest}
      (he : e = .deliver p now) (hp : p ∈ s.net) (hdst : p.dst = n)
      (hm : p.message = .appendRequest request)
      (hterm : (s.node n).currentTerm ≤ request.term)
      (hcons : (s.node n).checkLogConsistency request.prevLogIndex request.prevLogTerm = true) :
      Change s e n ((s.node n).accepted request now)
  | acknowledge {p : Packet} {now : Nat} {response : AppendEntriesResponse}
      (he : e = .deliver p now) (hp : p ∈ s.net) (hdst : p.dst = n)
      (hm : p.message = .appendResponse response) (hstate : (s.node n).state = .leader)
      (hterm : response.term ≤ (s.node n).currentTerm)
      (hsucc : response.success = true) :
      Change s e n ((s.node n).recordAck p.src response.lastLogIndex).tryAdvanceCommitIndex
  | conflict {p : Packet} {now : Nat} {response : AppendEntriesResponse}
      (he : e = .deliver p now) (hp : p ∈ s.net) (hdst : p.dst = n)
      (hm : p.message = .appendResponse response) (hstate : (s.node n).state = .leader)
      (hterm : response.term ≤ (s.node n).currentTerm)
      (hsucc : response.success = false) :
      Change s e n ((s.node n).handleLogConflict p.src response)

variable {p : Packet}

private theorem change_voteRequest (now : Nat) {request : RequestVoteRequest} (hp : p ∈ s.net)
    (hm : p.message = .voteRequest request) :
    Change s (.deliver p now) p.dst (answer (s.node p.dst) p now).1 := by
  simp only [answer, hm]
  by_cases hterm : request.term < (s.node p.dst).currentTerm
  · rw [RaftNode.handleVoteRequest_stale now hterm]
    exact .same
  · have hle : (s.node p.dst).currentTerm ≤ request.term := by omega
    rw [RaftNode.handleVoteRequest_of_le now hle]
    dsimp only
    by_cases hgrant :
        ((s.node p.dst).caughtUp request.term).grantsVote request = true ∧
          request.preVote = false
    · rw [if_pos (by simp [hgrant])]
      exact .vote rfl hp rfl hm hle hgrant.1 hgrant.2
    · rw [if_neg (by simpa using hgrant)]
      rcases RaftNode.caughtUp_cases hle with ⟨_, hcu⟩ | ⟨hlt, hcu⟩ <;> rw [hcu]
      · exact .same
      · exact .follow hlt

private theorem change_voteResponse (now : Nat) {response : RequestVoteResponse} (hp : p ∈ s.net)
    (hm : p.message = .voteResponse response) :
    Change s (.deliver p now) p.dst (answer (s.node p.dst) p now).1 := by
  simp only [answer, hm]
  by_cases hcnt : (s.node p.dst).CountsVote response
  · rw [RaftNode.handleVoteResponse_counted now hcnt]
    split
    · next hfew => exact .count rfl hp rfl hm hcnt hfew
    · next hmany => exact .win rfl hp rfl hm hcnt (by omega)
  · by_cases hnewer : (s.node p.dst).state = .candidate ∧
        response.term > (s.node p.dst).currentTerm
    · rw [RaftNode.handleVoteResponse_newer now hnewer.1 hnewer.2]
      exact .follow hnewer.2
    · rw [RaftNode.handleVoteResponse_ignored now hcnt hnewer]
      exact .same

private theorem change_appendRequest (now : Nat) (hp : p ∈ s.net)
    (hm : p.message = .appendRequest request) :
    Change s (.deliver p now) p.dst (answer (s.node p.dst) p now).1 := by
  simp only [answer, hm]
  obtain ⟨hlt, heq⟩ | ⟨hle, hcons, heq⟩ | ⟨hle, hcons, heq⟩ :=
    RaftNode.handleAppendEntries_cases (s.node p.dst) request now
  · rw [heq]
    exact .same
  · rw [heq]
    exact .hear rfl hp rfl hm hle hcons
  · rw [heq]
    exact .accept rfl hp rfl hm hle hcons

private theorem change_appendResponse (now : Nat) (hp : p ∈ s.net)
    (hm : p.message = .appendResponse response) :
    Change s (.deliver p now) p.dst (answer (s.node p.dst) p now).1 := by
  simp only [answer, hm]
  by_cases hstate : (s.node p.dst).state = .leader
  · by_cases hterm : response.term > (s.node p.dst).currentTerm
    · rw [RaftNode.handleAppendEntriesResponse_newer p.src hstate hterm]
      exact .follow hterm
    · have hle : response.term ≤ (s.node p.dst).currentTerm := by omega
      cases hsucc : response.success with
      | false =>
        rw [RaftNode.handleAppendEntriesResponse_failure p.src hstate hle hsucc]
        exact .conflict rfl hp rfl hm hstate hle hsucc
      | true =>
        rw [RaftNode.handleAppendEntriesResponse_success p.src hstate hle hsucc]
        exact .acknowledge rfl hp rfl hm hstate hle hsucc
  · rw [RaftNode.handleAppendEntriesResponse_ignored p.src response hstate]
    exact .same

theorem Transition.change {s s' : RaftCluster} (h : Transition s e s') (n : NodeId) :
    Change s e n (s'.node n) := by
  have hset : ∀ (t : RaftCluster) (k : NodeId) (b : RaftNode), t.node = s.node →
      Change s e k b → Change s e n ((t.set k b).node n) := by
    intro t k b ht hb
    refine forall_set_node (P := fun k x => Change s e k x) ?_ hb n
    rw [ht]
    exact fun _ => .same
  cases h with
  | campaign now hn => exact hset s _ _ rfl (.campaign rfl hn)
  | @append n command timestamp hn =>
    refine hset s _ _ rfl ?_
    by_cases hlead : (s.node n).state = .leader
    · rw [RaftNode.appendEntry_of_leader command timestamp hlead]
      exact .append rfl hn hlead
    · rw [RaftNode.appendEntry_of_not_leader command timestamp hlead]
      exact .same
  | apply => exact hset s _ _ rfl (.apply rfl)
  | @deliver p now hp =>
    refine hset (s.receive p) _ _ rfl ?_
    cases hm : p.message with
    | voteRequest => exact change_voteRequest now hp hm
    | voteResponse => exact change_voteResponse now hp hm
    | appendRequest => exact change_appendRequest now hp hm
    | appendResponse => exact change_appendResponse now hp hm
  | _ => exact .same

/-! ## Where a packet comes from -/

/-- The packets a step puts in flight, each with the call that built it. -/
inductive Sent (s : RaftCluster) (e : Event) (s' : RaftCluster) : Packet → Prop
  | voteRequest {n v : NodeId} {now : Nat} (he : e = .startElection n now)
      (hn : n ∈ s.ids) (hv : v ∈ s.ids) (hne : v ≠ n)
      (hnode : s'.node n = ((s.node n).startElection now).1) :
      Sent s e s' ⟨n, v, .voteRequest ((s.node n).startElection now).2⟩
  | voteResponse {q : Packet} {now : Nat} {request : RequestVoteRequest}
      {response : RequestVoteResponse} (he : e = .deliver q now) (hq : q ∈ s.net)
      (hm : q.message = .voteRequest request)
      (hcall : (s.node q.dst).handleVoteRequest request now = (s'.node q.dst, .ok response)) :
      Sent s e s' ⟨q.dst, request.candidateId, .voteResponse response⟩
  | appendRequest {n follower : NodeId} {requestId : Nat}
      {request : AppendEntriesRequest}
      (he : e = .createAppendEntries n follower requestId)
      (hn : n ∈ s.ids) (hf : follower ∈ s.ids) (hne : follower ≠ n)
      (hcall : (s.node n).createAppendEntries follower requestId = .ok request)
      (hnode : s'.node = s.node) :
      Sent s e s' ⟨n, follower, .appendRequest request⟩
  | appendResponse {q : Packet} {now : Nat} {request : AppendEntriesRequest}
      {response : AppendEntriesResponse} (he : e = .deliver q now) (hq : q ∈ s.net)
      (hm : q.message = .appendRequest request)
      (hcall : (s.node q.dst).handleAppendEntries request now = (s'.node q.dst, .ok response)) :
      Sent s e s' ⟨q.dst, request.leaderId, .appendResponse response⟩

private theorem sent_of_mem_answer {s' : RaftCluster} {q : Packet} {now : Nat} (hq : q ∈ s.net)
    (hnode : s'.node q.dst = (answer (s.node q.dst) q now).1)
    (hp : p ∈ (answer (s.node q.dst) q now).2) : Sent s (.deliver q now) s' p := by
  cases hm : q.message with
  | voteRequest request =>
    simp only [answer, hm] at hp hnode
    split at hp
    · next hcall =>
      rw [hcall] at hnode
      rw [List.mem_singleton.mp hp]
      exact .voteResponse rfl hq hm (hnode ▸ hcall)
    · cases hp
  | voteResponse | appendResponse =>
    simp only [answer, hm] at hp
    cases hp
  | appendRequest request =>
    simp only [answer, hm] at hp hnode
    split at hp
    · next hcall =>
      rw [hcall] at hnode
      rw [List.mem_singleton.mp hp]
      exact .appendResponse rfl hq hm (hnode ▸ hcall)
    · cases hp

theorem Transition.sent {s s' : RaftCluster} (h : Transition s e s') (hp : p ∈ s'.net) :
    p ∈ s.net ∨ Sent s e s' p := by
  cases h with
  | @campaign n now hn =>
    refine (List.mem_append.mp hp).imp_right fun hnew => ?_
    obtain ⟨v, hv, rfl⟩ := List.mem_map.mp hnew
    obtain ⟨hmem, hne⟩ := List.mem_filter.mp hv
    exact .voteRequest rfl hn hmem (by simpa using hne) (by rw [send_node, set_node_self])
  | append | refused | apply => exact .inl hp
  | create hn hf hne hreq =>
    refine (List.mem_append.mp hp).imp_right fun hnew => ?_
    rw [List.mem_singleton.mp hnew]
    exact .appendRequest rfl hn hf hne hreq rfl
  | deliver now hq =>
    refine (List.mem_append.mp hp).imp List.mem_of_mem_erase fun hnew => ?_
    exact sent_of_mem_answer hq (set_node_self _ _ _) hnew
  | drop => exact .inl (List.mem_of_mem_erase hp)
  | duplicate hq =>
    refine .inl ((List.mem_append.mp hp).elim id fun hnew => ?_)
    rwa [List.mem_singleton.mp hnew]

end RaftCluster

end Kaelix.Cluster.Raft
