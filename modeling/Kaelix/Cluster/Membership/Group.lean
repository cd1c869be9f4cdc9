import Kaelix.Lib.Run
import Kaelix.Cluster.Membership.Swim

/-!
# A group of SWIM nodes

The nodes of a group exchange pings, acknowledgements and gossip over a network that may delay,
reorder and lose them, and mark each other as suspect or failed at any time.  A message that is
never delivered, or dropped, is lost.

A node's own incarnation never changes: no operation of the source writes `local_node`.  So a mark
at this incarnation is ahead of everything the node will ever send.
-/

namespace Kaelix.Cluster.Membership

open Lib

/-- A message on its way. -/
structure Packet where
  dst : NodeId
  message : SwimMessage
deriving DecidableEq

/-- The nodes, and what is in flight. -/
structure SwimGroup where
  node : NodeId → SwimMembership
  net : List Packet

/-- What can happen next.  `shuffled` is the outcome of the shuffle in
`get_gossip_updates`. -/
inductive GroupEvent
  | sendPing (n target : NodeId) (shuffled : List NodeInfo)
  | gossipUpdates (n target : NodeId) (shuffled : List NodeInfo)
  | deliver (p : Packet) (shuffled : List NodeInfo) (now : Nat)
  | drop (p : Packet)
  | markSuspect (n target : NodeId) (now : Nat)
  | markFailed (n target : NodeId) (now : Nat)
  | processSuspicionTimeouts (n : NodeId) (now : Nat)

instance : Inhabited GroupEvent := ⟨.processSuspicionTimeouts default 0⟩

def GroupEvent.delivered : GroupEvent → Option Packet
  | .deliver p _ _ => some p
  | _ => none

/-- Who shows by the message that they are alive. -/
def SwimMessage.contact : SwimMessage → Option NodeId
  | .ping source _ _ => some source
  | .ack source _ _ => some source
  | _ => none

/-- What the message says about members. -/
def SwimMessage.updates : SwimMessage → List NodeInfo
  | .ping _ _ updates => updates
  | .ack _ _ updates => updates
  | .gossip _ updates => updates
  | _ => []

/-- How a group starts: every node is alive and has its own information and what it was
told about others, of which nothing is ahead of the node it is about. -/
structure Roster where
  info : NodeId → NodeInfo
  known : NodeId → List NodeInfo
  config : NodeId → SwimConfig
  info_id : ∀ n, (info n).id = n
  info_alive : ∀ n, (info n).status = .alive
  known_ne : ∀ n, ∀ k ∈ known n, k.id ≠ n
  known_le : ∀ n, ∀ k ∈ known n, k.incarnation ≤ (info k.id).incarnation

namespace SwimGroup

/-- Each node is new and has added the members it was told about. -/
def init (R : Roster) : SwimGroup :=
  { node := fun n => (R.known n).foldl SwimMembership.addMember
      (SwimMembership.new (R.info n) (R.config n))
    net := [] }

variable (s : SwimGroup)

def set (n : NodeId) (m : SwimMembership) : SwimGroup :=
  { s with node := fun x => if x = n then m else s.node x }

def send (ps : List Packet) : SwimGroup := { s with net := s.net ++ ps }

def receive (p : Packet) : SwimGroup := { s with net := s.net.erase p }

/-- A ping is answered. -/
def replies (m : SwimMembership) (message : SwimMessage) (shuffled : List NodeInfo) :
    List Packet :=
  match message with
  | .ping source _ _ => [⟨source, m.ackMessage shuffled⟩]
  | _ => []

/-- One step of the group.  `handle_indirect_ping` may ping any member, gossip goes to
the candidates only, and a node never marks itself. -/
def step : GroupEvent → Option SwimGroup
  | .sendPing n target shuffled =>
    if target ∈ (s.node n).members ∧ shuffled.Perm (s.node n).members.values then
      some (s.send [⟨target, (s.node n).pingMessage shuffled⟩])
    else none
  | .gossipUpdates n target shuffled =>
    if target ∈ (s.node n).candidates.map NodeInfo.id ∧
        shuffled.Perm (s.node n).members.values then
      some (s.send [⟨target, (s.node n).gossipMessage shuffled⟩])
    else none
  | .deliver p shuffled now =>
    let m := (s.node p.dst).handleSwimMessage p.message now
    if p ∈ s.net ∧ shuffled.Perm m.members.values then
      some (((s.receive p).set p.dst m).send (replies m p.message shuffled))
    else none
  | .drop p => if p ∈ s.net then some (s.receive p) else none
  | .markSuspect n target now =>
    if target ≠ n then some (s.set n ((s.node n).markSuspect target now)) else none
  | .markFailed n target now =>
    if target ≠ n then some (s.set n ((s.node n).markFailed target now)) else none
  | .processSuspicionTimeouts n now =>
    some (s.set n ((s.node n).processSuspicionTimeouts now))

/-- The incarnation of a node itself. -/
def own (x : NodeId) : UInt64 := (s.node x).localNode.incarnation

/-- No node records an incarnation above the one that the member has itself. -/
def NeverAhead : Prop := ∀ n x r, (s.node n).standing x = some r → r.1 ≤ s.own x

/-- The next incarnation is not ahead of `own`, or it wraps around and is refused. -/
def Below (own : UInt64) (r : Standing) : Prop := r.1 < own ∨ r.1 = 0xFFFFFFFFFFFFFFFF

instance (own : UInt64) (r : Standing) : Decidable (Below own r) :=
  inferInstanceAs (Decidable (_ ∨ _))

/-- Every mark is about a member whose recorded incarnation is below its own. -/
def MarksBelow : GroupEvent → Prop
  | .markSuspect n target _ => ∀ r ∈ (s.node n).standing target, r.2 = .alive →
      Below (s.own target) r
  | .markFailed n target _ => ∀ r ∈ (s.node n).standing target, Below (s.own target) r
  | .processSuspicionTimeouts n now => ∀ x ∈ (s.node n).expiredSuspects now,
      ∀ r ∈ (s.node n).standing x, Below (s.own x) r
  | _ => True

instance (s : SwimGroup) (e : GroupEvent) : Decidable (s.MarksBelow e) := by
  cases e <;> unfold MarksBelow <;> infer_instance

end SwimGroup

/-! ## One node -/

variable {shuffled : List NodeInfo}

namespace SwimMembership

variable {m : SwimMembership}

/-- Every member is under its own identifier. -/
def Keyed (m : SwimMembership) : Prop :=
  ∀ x node, m.members.lookup x = some node → node.id = x

@[simp] theorem updateStatus_id (node : NodeInfo) (status : NodeStatus)
    (incarnation : UInt64) (now : Nat) :
    (node.updateStatus status incarnation now).id = node.id := by
  unfold NodeInfo.updateStatus
  split <;> rfl

section

variable (h : m.Keyed)
include h

theorem Keyed.setMember {node : NodeInfo} {nodeId : NodeId}
    (hid : node.id = nodeId) : (m.setMember nodeId node).Keyed := by
  intro x node' hl
  rw [SwimMembership.setMember, HashMap.lookup_insert_eq] at hl
  split at hl
  · next hx => rw [← Option.some.inj hl, hid, hx]
  · exact h x node' hl

variable (nodeId : NodeId)

theorem Keyed.markSuspect (now : Nat) : (m.markSuspect nodeId now).Keyed := by
  unfold SwimMembership.markSuspect
  split
  · next node hl =>
      split
      · exact h.setMember ((updateStatus_id ..).trans (h _ _ hl))
      · exact h
  · exact h

theorem Keyed.markFailed (now : Nat) : (m.markFailed nodeId now).Keyed := by
  unfold SwimMembership.markFailed
  split
  · next node hl => exact h.setMember ((updateStatus_id ..).trans (h _ _ hl))
  · exact h

theorem Keyed.processSuspicionTimeouts (now : Nat) : (m.processSuspicionTimeouts now).Keyed := by
  unfold SwimMembership.processSuspicionTimeouts
  generalize m.expiredSuspects now = ids
  induction ids generalizing m with
  | nil => exact h
  | cons y ys ih => exact ih (h.markFailed y now)

theorem Keyed.updateNodeInfo (status : NodeStatus) (incarnation : UInt64) (now : Nat) :
    (m.updateNodeInfo nodeId status incarnation now).Keyed := by
  unfold SwimMembership.updateNodeInfo
  split
  · next node hl =>
      have hset : (m.setMember nodeId (node.updateStatus status incarnation now)).Keyed :=
        h.setMember ((updateStatus_id node status incarnation now).trans (h _ _ hl))
      split
      · dsimp only
        split <;> exact hset
      · exact h
  · exact h

end

theorem Keyed.applyCalls (calls : List Call) (now : Nat) :
    ∀ {m : SwimMembership}, m.Keyed → (m.applyCalls calls now).Keyed := by
  induction calls with
  | nil => intro m h; exact h
  | cons call calls ih =>
    intro m h
    rw [applyCalls_cons]
    exact ih (h.updateNodeInfo call.1 call.2.2 call.2.1 now)

theorem mem_getGossipUpdates (h : m.Keyed) (hperm : shuffled.Perm m.members.values) {u : NodeInfo}
    (hu : u ∈ m.getGossipUpdates shuffled) : m.standing u.id = some u.standing := by
  have hval : u ∈ m.members.values := hperm.mem_iff.mp (List.mem_of_mem_take hu)
  obtain ⟨⟨x, node⟩, he, rfl⟩ := List.mem_map.mp hval
  have hl := AList.mem_lookup_iff.mpr he
  have hs := standing_of_lookup hl
  rwa [← h x node hl] at hs

/-- The table of node `n`, which has the incarnation `own n` and no doubt about
itself. -/
structure Sound (own : NodeId → UInt64) (n : NodeId) (m : SwimMembership) : Prop where
  localId : m.localNode.id = n
  localIncarnation : m.localNode.incarnation = own n
  self : m.standing n = some (own n, .alive)
  notSuspect : n ∉ m.suspects
  keyed : m.Keyed

/-- No entry is ahead of the incarnation that the member has itself. -/
def Bounded (own : NodeId → UInt64) (m : SwimMembership) : Prop :=
  ∀ x r, m.standing x = some r → r.1 ≤ own x

end SwimMembership

open SwimMembership

/-- A ping or acknowledgement carries what its sender knows about itself, and nothing
else but gossip is in flight. -/
def SwimMessage.Sound (own : NodeId → UInt64) : SwimMessage → Prop
  | .ping source incarnation updates => incarnation = own source ∧
      ∀ u ∈ updates, u.id = source → u.standing = (own source, .alive)
  | .ack source incarnation updates => incarnation = own source ∧
      ∀ u ∈ updates, u.id = source → u.standing = (own source, .alive)
  | .gossip _ _ => True
  | .indirectPing _ _ _ => False
  | .indirectAck _ _ _ _ => False

/-- No update is ahead of the incarnation that the member has itself. -/
def SwimMessage.Bounded (own : NodeId → UInt64) (message : SwimMessage) : Prop :=
  ∀ u ∈ message.updates, u.incarnation ≤ own u.id

variable {message : SwimMessage}

section

variable {own : NodeId → UInt64} {n : NodeId} {m : SwimMembership}

variable {shuffled : List NodeInfo}

theorem SwimMembership.Sound.gossip_self (h : m.Sound own n)
    (hperm : shuffled.Perm m.members.values) :
    ∀ u ∈ m.getGossipUpdates shuffled, u.id = m.localNode.id →
      u.standing = (own m.localNode.id, .alive) := by
  intro u hu hid
  have hs := mem_getGossipUpdates h.keyed hperm hu
  rw [hid, h.localId, h.self] at hs
  rw [h.localId]
  exact (Option.some.inj hs).symm

theorem SwimMembership.Bounded.gossip (h : m.Bounded own) (hkeyed : m.Keyed)
    (hperm : shuffled.Perm m.members.values) :
    ∀ u ∈ m.getGossipUpdates shuffled, u.incarnation ≤ own u.id :=
  fun u hu => h u.id _ (mem_getGossipUpdates hkeyed hperm hu)

section

variable (h : m.Sound own n)
include h

theorem SwimMembership.Sound.pingMessage (hperm : shuffled.Perm m.members.values) :
    SwimMessage.Sound own (m.pingMessage shuffled) :=
  ⟨by rw [h.localIncarnation, h.localId], h.gossip_self hperm⟩

theorem SwimMembership.Sound.ackMessage (hperm : shuffled.Perm m.members.values) :
    SwimMessage.Sound own (m.ackMessage shuffled) :=
  ⟨by rw [h.localIncarnation, h.localId], h.gossip_self hperm⟩

theorem SwimMembership.Sound.markSuspect {target : NodeId}
    (hne : target ≠ n) (now : Nat) : (m.markSuspect target now).Sound own n where
  localId := by rw [markSuspect_localNode, h.localId]
  localIncarnation := by rw [markSuspect_localNode, h.localIncarnation]
  self := by rw [standing_markSuspect, if_neg hne.symm, h.self]
  notSuspect := by
    rw [mem_suspects_markSuspect]
    rintro (hs | ⟨rfl, _⟩)
    · exact h.notSuspect hs
    · exact hne rfl
  keyed := h.keyed.markSuspect target now

theorem SwimMembership.Sound.markFailed {target : NodeId}
    (hne : target ≠ n) (now : Nat) : (m.markFailed target now).Sound own n where
  localId := by rw [markFailed_localNode, h.localId]
  localIncarnation := by rw [markFailed_localNode, h.localIncarnation]
  self := by rw [standing_markFailed, if_neg hne.symm, h.self]
  notSuspect := fun hs => h.notSuspect ((mem_suspects_markFailed ..).mp hs).1
  keyed := h.keyed.markFailed target now

theorem SwimMembership.Sound.processSuspicionTimeouts (now : Nat) :
    (m.processSuspicionTimeouts now).Sound own n where
  localId := by rw [processSuspicionTimeouts_localNode, h.localId]
  localIncarnation := by rw [processSuspicionTimeouts_localNode, h.localIncarnation]
  self := by
    rw [standing_processSuspicionTimeouts, if_neg, h.self]
    exact fun hexp => h.notSuspect (mem_expiredSuspects.mp hexp).1
  notSuspect := fun hs =>
    h.notSuspect ((mem_suspects_processSuspicionTimeouts ..).mp hs).1
  keyed := h.keyed.processSuspicionTimeouts now

end

variable {r : Standing}

private theorem foldl_write_const {us : List Standing} (h : ∀ u ∈ us, u = r) :
    us.foldl (Register.write version) r = r := by
  rcases Register.foldl_write_cases version us r with ⟨heq, _⟩ | ⟨hmem, _, _⟩
  · exact heq
  · exact h _ hmem

theorem SwimMembership.Sound.applyCalls (h : m.Sound own n) {calls : List Call}
    (hcalls : ∀ call ∈ calls, call.1 = n → call.2 = (own n, .alive)) (now : Nat) :
    (m.applyCalls calls now).Sound own n where
  localId := by rw [applyCalls_localNode, h.localId]
  localIncarnation := by rw [applyCalls_localNode, h.localIncarnation]
  self := by
    rw [standing_applyCalls, h.self, Option.map_some, foldl_write_const]
    intro u hu
    obtain ⟨call, hcall, habout⟩ := List.mem_filterMap.mp hu
    rw [callAbout, Option.ite_none_right_eq_some, Option.some.injEq] at habout
    exact habout.2 ▸ hcalls call hcall habout.1
  notSuspect := fun hs => h.notSuspect ((mem_suspects_applyCalls ..).mp hs).1
  keyed := h.keyed.applyCalls calls now

variable {updates : List NodeInfo}

private theorem mem_updateCalls {call : Call} (h : call ∈ m.updateCalls updates) :
    ∃ u ∈ updates, u.id ≠ m.localNode.id ∧ call = (u.id, u.standing) := by
  obtain ⟨u, hu, rfl⟩ := List.mem_map.mp h
  obtain ⟨hmem, hid⟩ := List.mem_filter.mp hu
  exact ⟨u, hmem, by simpa using hid, rfl⟩

variable {source : NodeId} {incarnation : UInt64}

private theorem contactCalls_self (h : m.Sound own n) (hinc : incarnation = own source)
    (updates : List NodeInfo) :
    ∀ call ∈ m.contactCalls source incarnation updates, call.1 = n →
      call.2 = (own n, .alive) := by
  intro call hcall hn
  rcases List.mem_cons.mp hcall with rfl | hcall
  · obtain rfl : source = n := hn
    rw [hinc]
  · obtain ⟨u, _, hid, rfl⟩ := mem_updateCalls hcall
    exact absurd (hn.trans h.localId.symm) hid

theorem SwimMembership.Sound.handleSwimMessage (h : m.Sound own n) (hmsg : message.Sound own)
    (now : Nat) : (m.handleSwimMessage message now).Sound own n := by
  cases message with
  | ping source incarnation updates =>
    rw [SwimMembership.handleSwimMessage, handlePing_eq]
    exact h.applyCalls (contactCalls_self h hmsg.1 updates) now
  | ack source incarnation updates =>
    rw [SwimMembership.handleSwimMessage, handleAck_eq]
    exact h.applyCalls (contactCalls_self h hmsg.1 updates) now
  | gossip =>
    rw [SwimMembership.handleSwimMessage, handleGossip_eq]
    refine h.applyCalls (fun call hcall hn => ?_) now
    obtain ⟨u, _, hid, rfl⟩ := mem_updateCalls hcall
    exact absurd (hn.trans h.localId.symm) hid
  | _ => exact hmsg.elim

/-! ### Bounds -/

theorem write_succ_le_iff {bound : UInt64} (h : r.1 ≤ bound) (status : NodeStatus) :
    (Register.write version r (r.1 + 1, status)).1 ≤ bound ↔ SwimGroup.Below bound r := by
  rw [write_succ, SwimGroup.Below]
  by_cases hmax : r.1 = 0xFFFFFFFFFFFFFFFF
  · rw [if_pos hmax]
    exact iff_of_true h (.inr hmax)
  · have hne : r.1.toNat ≠ 2 ^ 64 - 1 := fun heq => hmax (UInt64.toNat_inj.mp heq)
    have hlt := r.1.toNat_lt
    have hadd : (r.1 + 1).toNat = (r.1.toNat + 1) % 2 ^ 64 := UInt64.toNat_add _ _
    rw [if_neg hmax, or_iff_left hmax, UInt64.le_iff_toNat_le, UInt64.lt_iff_toNat_lt]
    show (r.1 + 1).toNat ≤ _ ↔ _
    omega

theorem SwimMembership.Bounded.applyCalls (h : m.Bounded own) {calls : List Call}
    (hcalls : ∀ call ∈ calls, call.2.1 ≤ own call.1) (now : Nat) :
    (m.applyCalls calls now).Bounded own := by
  intro x r hr
  rw [standing_applyCalls] at hr
  obtain ⟨r₀, hr₀, rfl⟩ := Option.map_eq_some_iff.mp hr
  rcases Register.foldl_write_cases version (calls.filterMap (callAbout x)) r₀ with
    ⟨heq, _⟩ | ⟨hmem, _, _⟩
  · rw [heq]
    exact h x r₀ hr₀
  · obtain ⟨call, hcall, habout⟩ := List.mem_filterMap.mp hmem
    rw [callAbout, Option.ite_none_right_eq_some, Option.some.injEq] at habout
    obtain ⟨rfl, heq⟩ := habout
    rw [← heq]
    exact hcalls call hcall

private theorem updateCalls_le (h : ∀ u ∈ updates, u.incarnation ≤ own u.id) :
    ∀ call ∈ m.updateCalls updates, call.2.1 ≤ own call.1 := by
  intro call hcall
  obtain ⟨u, hu, _, rfl⟩ := mem_updateCalls hcall
  exact h u hu

private theorem contactCalls_le (hinc : incarnation = own source)
    (h : ∀ u ∈ updates, u.incarnation ≤ own u.id) :
    ∀ call ∈ m.contactCalls source incarnation updates, call.2.1 ≤ own call.1 := by
  intro call hcall
  rcases List.mem_cons.mp hcall with rfl | hcall
  · exact UInt64.le_iff_toNat_le.mpr (Nat.le_of_eq (congrArg UInt64.toNat hinc))
  · exact updateCalls_le h call hcall

section

variable (h : m.Bounded own)
include h

theorem SwimMembership.Bounded.handleSwimMessage (hmsg : message.Sound own)
    (hle : message.Bounded own) (now : Nat) : (m.handleSwimMessage message now).Bounded own := by
  cases message with
  | ping =>
    rw [SwimMembership.handleSwimMessage, handlePing_eq]
    exact h.applyCalls (contactCalls_le hmsg.1 hle) now
  | ack =>
    rw [SwimMembership.handleSwimMessage, handleAck_eq]
    exact h.applyCalls (contactCalls_le hmsg.1 hle) now
  | gossip =>
    rw [SwimMembership.handleSwimMessage, handleGossip_eq]
    exact h.applyCalls (updateCalls_le hle) now
  | _ => exact hmsg.elim

private theorem bounded_map_iff {m' : SwimMembership} {T : NodeId → Prop} [DecidablePred T]
    {g : Standing → Standing} {Q : UInt64 → Standing → Prop}
    (hst : ∀ x, m'.standing x = if T x then (m.standing x).map g else m.standing x)
    (hg : ∀ bound r, r.1 ≤ bound → ((g r).1 ≤ bound ↔ Q bound r)) :
    m'.Bounded own ↔ ∀ x, T x → ∀ r ∈ m.standing x, Q (own x) r := by
  constructor
  · intro h' x hx r hr
    refine (hg _ r (h x r hr)).mp (h' x _ ?_)
    rw [hst, if_pos hx, hr, Option.map_some]
  · intro hbelow x r hr
    rw [hst] at hr
    split at hr
    · next hx =>
        obtain ⟨r₀, hr₀, rfl⟩ := Option.map_eq_some_iff.mp hr
        exact (hg _ r₀ (h x r₀ hr₀)).mpr (hbelow x hx r₀ hr₀)
    · exact h x r hr

private theorem markSuspect_bounded_iff (target : NodeId) (now : Nat) :
    (m.markSuspect target now).Bounded own ↔
      ∀ r ∈ m.standing target, r.2 = .alive → SwimGroup.Below (own target) r := by
  refine (bounded_map_iff (Q := fun bound r => r.2 = .alive → SwimGroup.Below bound r) h
    (standing_markSuspect m target now) fun bound r hr => ?_).trans forall_eq
  split
  · next halive => rw [write_succ_le_iff hr, forall_prop_of_true halive]
  · next hdoubt => exact iff_of_true hr fun halive => absurd halive hdoubt

private theorem markFailed_bounded_iff (target : NodeId) (now : Nat) :
    (m.markFailed target now).Bounded own ↔
      ∀ r ∈ m.standing target, SwimGroup.Below (own target) r :=
  (bounded_map_iff h (standing_markFailed m target now)
    fun _ _ hr => write_succ_le_iff hr .failed).trans forall_eq

private theorem processSuspicionTimeouts_bounded_iff (now : Nat) :
    (m.processSuspicionTimeouts now).Bounded own ↔
      ∀ x ∈ m.expiredSuspects now, ∀ r ∈ m.standing x, SwimGroup.Below (own x) r :=
  bounded_map_iff h (standing_processSuspicionTimeouts m now)
    fun _ _ hr => write_succ_le_iff hr .failed

theorem applyCalls_contact_alive
    (hself : ∀ u ∈ updates, u.id = source → u.standing = (own source, .alive))
    (hr : m.standing source = some r) (now : Nat) :
    (m.applyCalls (m.contactCalls source (own source) updates) now).status source =
      some .alive := by
  have hfirst : Register.write version r (own source, .alive) = (own source, .alive) :=
    if_pos (UInt64.le_iff_toNat_le.mp (h source r hr))
  rw [status, standing_applyCalls, hr, contactCalls,
    List.filterMap_cons_some (show callAbout source (source, _) = some _ from if_pos rfl),
    Option.map_some, List.foldl_cons, hfirst, foldl_write_const]
  · rfl
  · intro u hu
    obtain ⟨call, hcall, habout⟩ := List.mem_filterMap.mp hu
    obtain ⟨w, hw, _, rfl⟩ := mem_updateCalls hcall
    rw [callAbout, Option.ite_none_right_eq_some, Option.some.injEq] at habout
    exact habout.2 ▸ hself w hw habout.1

end

private theorem foldl_addMember (infos : List NodeInfo)
    (hne : ∀ k ∈ infos, k.id ≠ n) (hle : ∀ k ∈ infos, k.incarnation ≤ own k.id) :
    ∀ {m : SwimMembership}, m.Sound own n → m.Bounded own →
      (infos.foldl SwimMembership.addMember m).Sound own n ∧
        (infos.foldl SwimMembership.addMember m).Bounded own := by
  induction infos with
  | nil => intro m hs hb; exact ⟨hs, hb⟩
  | cons k ks ih =>
    intro m hs hb
    obtain ⟨hk, hks⟩ := List.forall_mem_cons.mp hne
    obtain ⟨hkle, hksle⟩ := List.forall_mem_cons.mp hle
    refine ih hks hksle ⟨hs.localId, hs.localIncarnation, ?_, hs.notSuspect,
      hs.keyed.setMember rfl⟩ ?_
    · rw [addMember, standing_setMember, if_neg hk.symm, hs.self]
    · intro x r hr
      rw [addMember, standing_setMember] at hr
      split at hr
      · next hx =>
          rw [← Option.some.inj hr, hx]
          exact hkle
      · exact hb x r hr

end

/-! ## The group -/

namespace SwimGroup

variable {own : NodeId → UInt64} {s s' : SwimGroup}

@[simp] theorem send_node (s : SwimGroup) (ps : List Packet) : (s.send ps).node = s.node := rfl

@[simp] theorem receive_node (s : SwimGroup) (p : Packet) : (s.receive p).node = s.node := rfl

@[simp] theorem set_node_self (s : SwimGroup) (n : NodeId) (m : SwimMembership) :
    (s.set n m).node n = m := if_pos rfl

variable {n : NodeId}

private theorem set_node_ne (s : SwimGroup) {x : NodeId} (m : SwimMembership) (h : x ≠ n) :
    (s.set n m).node x = s.node x := if_neg h

variable {m : SwimMembership}

theorem forall_set_node {P : NodeId → SwimMembership → Prop} (hold : ∀ x, P x (s.node x))
    (hnew : P n m) (x : NodeId) : P x ((s.set n m).node x) := by
  by_cases h : x = n
  · subst h
    rw [set_node_self]
    exact hnew
  · rw [set_node_ne s m h]
    exact hold x

/-- All tables and all messages are sound. -/
structure AllSound (own : NodeId → UInt64) (s : SwimGroup) : Prop where
  node : ∀ n, (s.node n).Sound own n
  net : ∀ p ∈ s.net, p.message.Sound own

/-- All tables and all messages are bounded. -/
structure AllBounded (own : NodeId → UInt64) (s : SwimGroup) : Prop where
  node : ∀ n, (s.node n).Bounded own
  net : ∀ p ∈ s.net, p.message.Bounded own

theorem AllSound.own_eq (h : s.AllSound own) (x : NodeId) : s.own x = own x :=
  (h.node x).localIncarnation

theorem AllSound.neverAhead_iff (h : s.AllSound own) :
    s.NeverAhead ↔ ∀ n, (s.node n).Bounded own := by
  simp only [NeverAhead, SwimMembership.Bounded, h.own_eq]

theorem init_allSound (R : Roster) :
    (init R).AllSound (fun x => (R.info x).incarnation) ∧
      (init R).AllBounded (fun x => (R.info x).incarnation) := by
  have hnew : ∀ n, (SwimMembership.new (R.info n) (R.config n)).Sound
        (fun x => (R.info x).incarnation) n ∧
      (SwimMembership.new (R.info n) (R.config n)).Bounded (fun x => (R.info x).incarnation) := by
    intro n
    have hst : ∀ x, (SwimMembership.new (R.info n) (R.config n)).standing x =
        if x = n then some ((R.info n).incarnation, .alive) else none := by
      intro x
      rw [standing, SwimMembership.new, HashMap.lookup_insert_eq, R.info_id n]
      split
      · rw [Option.map_some, NodeInfo.standing, R.info_alive n]
      · rfl
    refine ⟨⟨R.info_id n, rfl, (hst n).trans (if_pos rfl), AList.notMem_empty n, ?_⟩, ?_⟩
    · intro x node hl
      rw [SwimMembership.new, HashMap.lookup_insert_eq] at hl
      split at hl
      · next hx => rw [← Option.some.inj hl, hx]
      · cases hl
    · intro x r hr
      rw [hst] at hr
      split at hr
      · next hx =>
          rw [← Option.some.inj hr, hx]
          exact UInt64.le_refl _
      · cases hr
  have hall := fun n => foldl_addMember (R.known n) (R.known_ne n) (R.known_le n)
    (hnew n).1 (hnew n).2
  exact ⟨⟨fun n => (hall n).1, by simp [init]⟩, ⟨fun n => (hall n).2, by simp [init]⟩⟩

/-- The events as outcomes.  `step_transition` shows that a step does nothing else. -/
inductive Transition (s : SwimGroup) : GroupEvent → SwimGroup → Prop
  | ping {n target : NodeId} {shuffled : List NodeInfo}
      (hperm : shuffled.Perm (s.node n).members.values) :
      Transition s (.sendPing n target shuffled)
        (s.send [⟨target, (s.node n).pingMessage shuffled⟩])
  | gossip {n target : NodeId} {shuffled : List NodeInfo}
      (hperm : shuffled.Perm (s.node n).members.values) :
      Transition s (.gossipUpdates n target shuffled)
        (s.send [⟨target, (s.node n).gossipMessage shuffled⟩])
  | deliver {p : Packet} {shuffled : List NodeInfo} {now : Nat} (hp : p ∈ s.net)
      (hperm : shuffled.Perm ((s.node p.dst).handleSwimMessage p.message now).members.values) :
      Transition s (.deliver p shuffled now)
        (((s.receive p).set p.dst ((s.node p.dst).handleSwimMessage p.message now)).send
          (replies ((s.node p.dst).handleSwimMessage p.message now) p.message shuffled))
  | drop {p : Packet} : Transition s (.drop p) (s.receive p)
  | suspect {n target : NodeId} {now : Nat} (hne : target ≠ n) :
      Transition s (.markSuspect n target now) (s.set n ((s.node n).markSuspect target now))
  | fail {n target : NodeId} {now : Nat} (hne : target ≠ n) :
      Transition s (.markFailed n target now) (s.set n ((s.node n).markFailed target now))
  | timeouts {n : NodeId} {now : Nat} :
      Transition s (.processSuspicionTimeouts n now)
        (s.set n ((s.node n).processSuspicionTimeouts now))

variable {e : GroupEvent}

theorem step_transition (hs : s.step e = some s') : Transition s e s' := by
  cases e with
  | processSuspicionTimeouts =>
    obtain rfl := Option.some.inj hs
    exact .timeouts
  | _ =>
    simp only [SwimGroup.step, Option.ite_none_right_eq_some, Option.some.injEq] at hs
    obtain ⟨hguard, rfl⟩ := hs
    first
      | exact .ping hguard.2
      | exact .gossip hguard.2
      | exact .deliver hguard.1 hguard.2
      | exact .drop
      | exact .suspect hguard
      | exact .fail hguard

private theorem mem_receive {p q : Packet} (h : q ∈ (s.receive p).net) : q ∈ s.net :=
  List.mem_of_mem_erase h

private theorem mem_replies {q : Packet} (h : q ∈ replies m message shuffled) :
    q.message = m.ackMessage shuffled := by
  cases message with
  | ping => rw [List.mem_singleton.mp h]
  | _ => cases h

/-- One step keeps every member sound. -/
theorem AllSound.step (h : s.AllSound own) (hs : s.step e = some s') : s'.AllSound own := by
  cases step_transition hs with
  | @ping n _ _ hperm =>
    refine ⟨h.node, List.forall_mem_append.mpr ⟨h.net, ?_⟩⟩
    exact List.forall_mem_singleton.mpr ((h.node n).pingMessage hperm)
  | gossip =>
    refine ⟨h.node, List.forall_mem_append.mpr ⟨h.net, ?_⟩⟩
    exact List.forall_mem_singleton.mpr trivial
  | @deliver p _ now hp hperm =>
    have hnew := (h.node p.dst).handleSwimMessage (h.net p hp) now
    refine ⟨forall_set_node (s := s.receive p) h.node hnew,
      List.forall_mem_append.mpr ⟨fun q hq => h.net q (mem_receive hq), ?_⟩⟩
    intro q hq
    rw [mem_replies hq]
    exact hnew.ackMessage hperm
  | drop => exact ⟨h.node, fun q hq => h.net q (mem_receive hq)⟩
  | @suspect n _ now hne =>
    exact ⟨forall_set_node h.node ((h.node n).markSuspect hne now), h.net⟩
  | @fail n _ now hne =>
    exact ⟨forall_set_node h.node ((h.node n).markFailed hne now), h.net⟩
  | @timeouts n now =>
    exact ⟨forall_set_node h.node ((h.node n).processSuspicionTimeouts now), h.net⟩

private theorem set_bounded_iff (h : ∀ x, (s.node x).Bounded own) :
    (∀ x, ((s.set n m).node x).Bounded own) ↔ m.Bounded own := by
  refine ⟨fun h' => ?_, fun hm => forall_set_node (P := fun _ m => m.Bounded own) h hm⟩
  have hn := h' n
  rwa [set_node_self] at hn

theorem bounded_iff_marksBelow (h : s.AllBounded own) (hsound : s.AllSound own)
    (hs : s.step e = some s') : (∀ n, (s'.node n).Bounded own) ↔ s.MarksBelow e := by
  cases step_transition hs with
  | ping | gossip | drop => exact iff_of_true h.node trivial
  | @deliver p _ now hp _ =>
    have hnew := (h.node p.dst).handleSwimMessage (hsound.net p hp) (h.net p hp) now
    exact iff_of_true ((set_bounded_iff (s := s.receive p) h.node).mpr hnew) trivial
  | @suspect n target now _ =>
    simp only [MarksBelow, hsound.own_eq]
    exact (set_bounded_iff h.node).trans (markSuspect_bounded_iff (h.node n) target now)
  | @fail n target now _ =>
    simp only [MarksBelow, hsound.own_eq]
    exact (set_bounded_iff h.node).trans (markFailed_bounded_iff (h.node n) target now)
  | @timeouts n now =>
    simp only [MarksBelow, hsound.own_eq]
    exact (set_bounded_iff h.node).trans (processSuspicionTimeouts_bounded_iff (h.node n) now)

theorem AllBounded.net_step (h : s.AllBounded own) (hsound : s.AllSound own)
    (hs : s.step e = some s') : ∀ p ∈ s'.net, p.message.Bounded own := by
  cases step_transition hs with
  | @ping n _ _ hperm =>
    refine List.forall_mem_append.mpr ⟨h.net, List.forall_mem_singleton.mpr ?_⟩
    exact (h.node n).gossip (hsound.node n).keyed hperm
  | @gossip n _ _ hperm =>
    refine List.forall_mem_append.mpr ⟨h.net, List.forall_mem_singleton.mpr ?_⟩
    exact (h.node n).gossip (hsound.node n).keyed hperm
  | @deliver p _ now hp hperm =>
    have hnew := (h.node p.dst).handleSwimMessage (hsound.net p hp) (h.net p hp) now
    have hkeyed := ((hsound.node p.dst).handleSwimMessage (hsound.net p hp) now).keyed
    refine List.forall_mem_append.mpr ⟨fun q hq => h.net q (mem_receive hq), ?_⟩
    intro q hq
    rw [mem_replies hq]
    exact hnew.gossip hkeyed hperm
  | drop => exact fun q hq => h.net q (mem_receive hq)
  | _ => exact h.net

/-- A ping or acknowledgement from a member that the receiver has as `Suspect` makes
it alive there. -/
def Rehabilitates (s : SwimGroup) (e : GroupEvent) (s' : SwimGroup) : Prop :=
  ∀ p ∈ e.delivered, ∀ x ∈ p.message.contact,
    (s.node p.dst).status x = some .suspect → (s'.node p.dst).status x = some .alive

private theorem rehabilitates_of_bounded (hsound : s.AllSound own)
    (hs : s.step e = some s') (h : ∀ n, (s.node n).Bounded own) : s.Rehabilitates e s' := by
  intro p hp x hx hsus
  cases step_transition hs with
  | @deliver q _ now hmem _ =>
    obtain rfl : q = p := Option.some.inj hp
    obtain ⟨r, hr, _⟩ := Option.map_eq_some_iff.mp hsus
    have hmsg := hsound.net q hmem
    rw [send_node, set_node_self]
    cases hm : q.message with
    | ping source =>
      rw [hm] at hx hmsg
      obtain rfl : source = x := Option.some.inj hx
      rw [SwimMembership.handleSwimMessage, handlePing_eq, hmsg.1]
      exact applyCalls_contact_alive (h q.dst) hmsg.2 hr now
    | ack source =>
      rw [hm] at hx hmsg
      obtain rfl : source = x := Option.some.inj hx
      rw [SwimMembership.handleSwimMessage, handleAck_eq, hmsg.1]
      exact applyCalls_contact_alive (h q.dst) hmsg.2 hr now
    | _ => rw [hm] at hx; cases hx
  | _ => cases hp

end SwimGroup

/-! ## Whole runs -/

/-- A run of the group. -/
abbrev GroupRun := Run SwimGroup.step

namespace GroupRun

variable {ρ : GroupRun} {R : Roster}

private theorem allSound (hinit : ρ.state 0 = .init R) :
    ∀ i, i ≤ ρ.length → (ρ.state i).AllSound fun x => (R.info x).incarnation :=
  ρ.invariant (hinit ▸ (SwimGroup.init_allSound R).1) fun i hi ih => ih.step (ρ.step_eq i hi)

private theorem allBounded (hinit : ρ.state 0 = .init R)
    (hmarks : ∀ i, i < ρ.length → (ρ.state i).MarksBelow (ρ.event i)) :
    ∀ i, i ≤ ρ.length → (ρ.state i).AllBounded fun x => (R.info x).incarnation := by
  refine ρ.invariant (hinit ▸ (SwimGroup.init_allSound R).2) fun i hi ih => ?_
  have hsound := allSound hinit i hi.le
  exact ⟨(SwimGroup.bounded_iff_marksBelow ih hsound (ρ.step_eq i hi)).mpr (hmarks i hi),
    ih.net_step hsound (ρ.step_eq i hi)⟩

private theorem allBounded_of_neverAhead (hinit : ρ.state 0 = .init R)
    (hahead : ∀ i, i ≤ ρ.length → (ρ.state i).NeverAhead) :
    ∀ i, i ≤ ρ.length → (ρ.state i).AllBounded fun x => (R.info x).incarnation := by
  refine ρ.invariant (hinit ▸ (SwimGroup.init_allSound R).2) fun i hi ih => ?_
  exact ⟨(allSound hinit (i + 1) hi).neverAhead_iff.mp (hahead (i + 1) hi),
    ih.net_step (allSound hinit i hi.le) (ρ.step_eq i hi)⟩

end GroupRun

/-- In a run of a group no recorded incarnation is ever ahead of the member's own and
every contact rehabilitates a suspect, exactly if every mark is below. -/
theorem rehabilitation_iff_marksBelow (ρ : GroupRun) (R : Roster) (hinit : ρ.state 0 = .init R) :
    ((∀ i, i ≤ ρ.length → (ρ.state i).NeverAhead) ∧
      ∀ i, i < ρ.length → (ρ.state i).Rehabilitates (ρ.event i) (ρ.state (i + 1))) ↔
      ∀ i, i < ρ.length → (ρ.state i).MarksBelow (ρ.event i) := by
  have hsound := GroupRun.allSound hinit
  constructor
  · rintro ⟨hahead, _⟩ i hi
    have hbd := GroupRun.allBounded_of_neverAhead hinit hahead
    exact (SwimGroup.bounded_iff_marksBelow (hbd i hi.le) (hsound i hi.le)
      (ρ.step_eq i hi)).mp (hbd (i + 1) hi).node
  · intro hmarks
    have hbd := GroupRun.allBounded hinit hmarks
    refine ⟨fun i hi => (hsound i hi).neverAhead_iff.mpr (hbd i hi).node, ?_⟩
    intro i hi
    exact SwimGroup.rehabilitates_of_bounded (hsound i hi.le) (ρ.step_eq i hi)
      (hbd i hi.le).node

variable (inc : UInt64)

/-- Two nodes that were told about each other when both had incarnation zero; the peer
has since started with the incarnation `inc`. -/
def twoNodes : Roster where
  info n := if n = peer then { NodeInfo.new peer 0 with incarnation := inc } else .new n 0
  known n := if n = here then [.new peer 0] else if n = peer then [.new here 0] else []
  config _ := .default
  info_id n := by split <;> simp_all [NodeInfo.new]
  info_alive n := by split <;> rfl
  known_ne n k hk := by
    split at hk
    · next h => rw [List.mem_singleton.mp hk, h]; decide
    · split at hk
      · next h => rw [List.mem_singleton.mp hk, h]; decide
      · cases hk
  known_le n k hk := by
    have hzero : k.incarnation = 0 := by
      split at hk
      · rw [List.mem_singleton.mp hk]; rfl
      · split at hk
        · rw [List.mem_singleton.mp hk]; rfl
        · cases hk
    rw [hzero]
    exact UInt64.le_iff_toNat_le.mpr (Nat.zero_le _)

def peerTable : List NodeInfo :=
  [.new here 0, { NodeInfo.new peer 0 with incarnation := inc }]

def suspectThenPing (after : List NodeInfo) : List GroupEvent :=
  [.markSuspect here peer 1, .sendPing peer here (peerTable inc),
   .deliver ⟨here, .ping peer inc (peerTable inc)⟩ after 2]

def tableAfter (status : NodeStatus) (seen : Nat) : List NodeInfo :=
  [{ id := peer, status := status, incarnation := 1, lastSeen := some seen }, .new here 0]

/-- The peer has incarnation one, so the suspicion is not ahead of it. -/
def refutedRun : GroupRun :=
  Run.ofEvents SwimGroup.step (.init (twoNodes 1))
    (suspectThenPing 1 (tableAfter .alive 2)) (by decide)

/-- Its ping ends the suspicion. -/
theorem rehabilitation_refuted :
    ((refutedRun.state 1).node here).status peer = some .suspect ∧
      ((refutedRun.state 3).node here).status peer = some .alive ∧
      (∀ i, i ≤ refutedRun.length → (refutedRun.state i).NeverAhead) ∧
      ∀ i, i < refutedRun.length →
        (refutedRun.state i).Rehabilitates (refutedRun.event i) (refutedRun.state (i + 1)) :=
  ⟨by decide, by decide,
    (rehabilitation_iff_marksBelow refutedRun (twoNodes 1) rfl).mpr (by decide)⟩

def aheadRun : GroupRun :=
  Run.ofEvents SwimGroup.step (.init (twoNodes 0))
    (suspectThenPing 0 (tableAfter .suspect 1)) (by decide)

/-- Without the condition the suspicion is ahead of the peer, and its ping is
refused. -/
theorem rehabilitation_fails :
    (¬ ∀ (ρ : GroupRun) (R : Roster), ρ.state 0 = .init R →
      ∀ i, i ≤ ρ.length → (ρ.state i).NeverAhead) ∧
    ¬ ∀ (ρ : GroupRun) (R : Roster), ρ.state 0 = .init R →
      ∀ i, i < ρ.length → (ρ.state i).Rehabilitates (ρ.event i) (ρ.state (i + 1)) := by
  constructor
  · intro h
    have hle := h aheadRun (twoNodes 0) rfl 1 (by decide) here peer (1, .suspect) (by decide)
    exact absurd hle (by decide)
  · intro h
    have halive := h aheadRun (twoNodes 0) rfl 2 (by decide)
      ⟨here, .ping peer 0 (peerTable 0)⟩ rfl peer rfl (by decide)
    exact absurd halive (by decide)

end Kaelix.Cluster.Membership
