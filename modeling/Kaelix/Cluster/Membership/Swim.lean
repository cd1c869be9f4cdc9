import Kaelix.Lib.Register
import Kaelix.Cluster.Node.Address
import Mathlib.Algebra.GroupWithZero.Nat

/-!
# SWIM membership

`SwimMembership` of `kaelix-cluster/src/membership/mod.rs`: the table of members with their
statuses and incarnations, the set of suspects, and the operations that write them.  Operations
that the source makes fallible but that never fail return the new state only.  Incarnations are
machine words and wrap around, as the release build computes them.  The source reads the clock
each time it writes an entry; here it is read once per call, as the argument `now`.

The random choices of the source are arguments too: `get_gossip_updates` shuffles the members
before it cuts them to the fanout, so the shuffled list is given.
-/

namespace Kaelix.Cluster.Membership

open Lib

/-- What a member holds of another. -/
inductive NodeStatus
  | alive
  | suspect
  | failed
  | left
deriving DecidableEq

/-- What is known about a member. -/
structure NodeInfo where
  id : NodeId
  status : NodeStatus
  incarnation : UInt64
  lastSeen : Option Nat
deriving DecidableEq

namespace NodeInfo

def new (id : NodeId) (now : Nat) : NodeInfo :=
  { id := id, status := .alive, incarnation := 0, lastSeen := some now }

/-- A lower incarnation changes nothing. -/
def updateStatus (self : NodeInfo) (status : NodeStatus) (incarnation : UInt64)
    (now : Nat) : NodeInfo :=
  if incarnation ≥ self.incarnation then
    { self with status := status, incarnation := incarnation, lastSeen := some now }
  else self

/-- `time_since_last_seen`; the difference does not fall below zero. -/
def timeSinceLastSeen (self : NodeInfo) (now : Nat) : Option Nat :=
  self.lastSeen.map fun timestamp => now - timestamp

end NodeInfo

/-- Incarnation and status: the part of an entry that gossip overwrites. -/
abbrev Standing := UInt64 × NodeStatus

def version (r : Standing) : Nat := r.1.toNat

def NodeInfo.standing (node : NodeInfo) : Standing := (node.incarnation, node.status)

theorem NodeInfo.standing_updateStatus (node : NodeInfo) (status : NodeStatus)
    (incarnation : UInt64) (now : Nat) :
    (node.updateStatus status incarnation now).standing =
      Register.write version node.standing (incarnation, status) := by
  by_cases h : node.incarnation ≤ incarnation
  · have hv : version node.standing ≤ version (incarnation, status) := UInt64.le_iff_toNat_le.mp h
    rw [updateStatus, if_pos h, Register.write, if_pos hv]
    rfl
  · have hv : ¬ version node.standing ≤ version (incarnation, status) :=
      fun hle => h (UInt64.le_iff_toNat_le.mpr hle)
    rw [updateStatus, if_neg h, Register.write, if_neg hv]

theorem write_succ (r : Standing) (status : NodeStatus) :
    Register.write version r (r.1 + 1, status) =
      if r.1 = 0xFFFFFFFFFFFFFFFF then r else (r.1 + 1, status) := by
  have hlt := r.1.toNat_lt
  have hmax : r.1 = 0xFFFFFFFFFFFFFFFF ↔ r.1.toNat = 2 ^ 64 - 1 := by
    rw [← UInt64.toNat_inj]
    rfl
  have hadd : (r.1 + 1).toNat = (r.1.toNat + 1) % 2 ^ 64 := UInt64.toNat_add _ _
  unfold Register.write version
  by_cases h : r.1 = 0xFFFFFFFFFFFFFFFF
  · rw [if_pos h, if_neg]
    have := hmax.mp h
    show ¬ r.1.toNat ≤ (r.1 + 1).toNat
    omega
  · rw [if_neg h, if_pos]
    have := mt hmax.mpr h
    show r.1.toNat ≤ (r.1 + 1).toNat
    omega

structure SwimConfig where
  failureTimeoutMs : Nat
  gossipFanout : Nat
  suspicionMultiplier : Nat
deriving DecidableEq

def SwimConfig.default : SwimConfig :=
  { failureTimeoutMs := 5000, gossipFanout := 3, suspicionMultiplier := 3 }

/-- A ping through proxies, outstanding. -/
structure IndirectPingRequest where
  target : NodeId
  proxies : List NodeId
  timestamp : Nat
  responsesReceived : Nat
deriving DecidableEq

inductive MembershipError
  /-- "Node {} not found in membership" -/
  | nodeNotFound (nodeId : NodeId)
deriving DecidableEq

/-- The messages of the protocol. -/
inductive SwimMessage
  | ping (source : NodeId) (incarnation : UInt64) (updates : List NodeInfo)
  | ack (source : NodeId) (incarnation : UInt64) (updates : List NodeInfo)
  | indirectPing (source target : NodeId) (requestId : Nat)
  | indirectAck (source target : NodeId) (requestId : Nat) (success : Bool)
  | gossip (source : NodeId) (updates : List NodeInfo)
deriving DecidableEq

/-- The table of a node. -/
structure SwimMembership where
  localNode : NodeInfo
  members : HashMap NodeId NodeInfo
  config : SwimConfig
  suspects : HashMap NodeId Unit
  pendingIndirectPings : HashMap Nat IndirectPingRequest
  requestIdCounter : Nat

namespace SwimMembership

def new (localNode : NodeInfo) (config : SwimConfig) : SwimMembership :=
  { localNode := localNode
    members := AList.insert localNode.id localNode ∅
    config := config
    suspects := ∅
    pendingIndirectPings := ∅
    requestIdCounter := 0 }

section

variable (self : SwimMembership)

section

variable (nodeId : NodeId)

def setMember (node : NodeInfo) : SwimMembership :=
  { self with members := self.members.insert nodeId node }

def addSuspect : SwimMembership :=
  { self with suspects := self.suspects.insert nodeId () }

def removeSuspect : SwimMembership :=
  { self with suspects := self.suspects.erase nodeId }

/-- Members other than the node itself that are alive: `select_ping_target` and
`select_gossip_targets` choose among them. -/
def candidates : List NodeInfo :=
  self.members.values.filter fun node =>
    node.id ≠ self.localNode.id ∧ node.status = .alive

/-! ## Suspicion -/

/-- Only a member that is alive becomes a suspect. -/
def markSuspect (now : Nat) : SwimMembership :=
  match self.members.lookup nodeId with
  | some node =>
    if node.status = .alive then
      (self.setMember nodeId
        (node.updateStatus .suspect (node.incarnation + 1) now)).addSuspect nodeId
    else self
  | none => self

/-- The incarnation goes up, and the suspicion ends. -/
def markFailed (now : Nat) : SwimMembership :=
  match self.members.lookup nodeId with
  | some node =>
    (self.setMember nodeId
      (node.updateStatus .failed (node.incarnation + 1) now)).removeSuspect nodeId
  | none => self

/-- The suspicion is older than the timeout. -/
def expired (now : Nat) : Bool :=
  let suspicionTimeout := self.config.failureTimeoutMs * self.config.suspicionMultiplier % 2 ^ 64
  match self.members.lookup nodeId with
  | some node =>
    match node.timeSinceLastSeen now with
    | some elapsed => elapsed > suspicionTimeout
    | none => false
  | none => false

end

def expiredSuspects (now : Nat) : List NodeId :=
  self.suspects.keys.filter fun nodeId => self.expired nodeId now

def processSuspicionTimeouts (now : Nat) : SwimMembership :=
  (self.expiredSuspects now).foldl (fun self nodeId => self.markFailed nodeId now) self

/-! ## Gossip -/

/-- `update_node_info`.  A node that is not a member is only logged. -/
def updateNodeInfo (nodeId : NodeId) (status : NodeStatus)
    (incarnation : UInt64) (now : Nat) : SwimMembership :=
  match self.members.lookup nodeId with
  | some existingNode =>
    if incarnation ≥ existingNode.incarnation then
      let self := self.setMember nodeId (existingNode.updateStatus status incarnation now)
      if status = .alive then self.removeSuspect nodeId else self
    else self
  | none => self

/-- `process_membership_updates`: updates about the node itself are skipped. -/
def processMembershipUpdates (updates : List NodeInfo) (now : Nat) : SwimMembership :=
  updates.foldl (fun self update =>
    if update.id = self.localNode.id then self
    else self.updateNodeInfo update.id update.status update.incarnation now) self

variable (shuffled : List NodeInfo)

/-- `get_gossip_updates`, given the shuffled members. -/
def getGossipUpdates : List NodeInfo :=
  shuffled.take self.config.gossipFanout

def pingMessage : SwimMessage :=
  .ping self.localNode.id self.localNode.incarnation (self.getGossipUpdates shuffled)

def ackMessage : SwimMessage :=
  .ack self.localNode.id self.localNode.incarnation (self.getGossipUpdates shuffled)

def gossipMessage : SwimMessage :=
  .gossip self.localNode.id (self.getGossipUpdates shuffled)

/-! ## Incoming messages -/

/-- A ping shows that its source is alive. -/
def handlePing (source : NodeId) (incarnation : UInt64)
    (updates : List NodeInfo) (now : Nat) : SwimMembership :=
  (self.updateNodeInfo source .alive incarnation now).processMembershipUpdates updates now

def handleAck (source : NodeId) (incarnation : UInt64)
    (updates : List NodeInfo) (now : Nat) : SwimMembership :=
  (self.updateNodeInfo source .alive incarnation now).processMembershipUpdates updates now

def handleGossip (updates : List NodeInfo) (now : Nat) : SwimMembership :=
  self.processMembershipUpdates updates now

def handleIndirectAck (target : NodeId) (requestId : Nat)
    (success : Bool) (now : Nat) : SwimMembership :=
  match self.pendingIndirectPings.lookup requestId with
  | some request =>
    let self := { self with
      pendingIndirectPings := AList.insert requestId
        { request with responsesReceived := request.responsesReceived + 1 }
        self.pendingIndirectPings }
    if success then
      (self.updateNodeInfo target .alive 0 now).removeSuspect target
    else self
  | none => self

/-- What `handle_swim_message` does to the membership.  An indirect ping is answered
without a change. -/
def handleSwimMessage (message : SwimMessage) (now : Nat) : SwimMembership :=
  match message with
  | .ping source incarnation updates => self.handlePing source incarnation updates now
  | .ack source incarnation updates => self.handleAck source incarnation updates now
  | .indirectPing _ _ _ => self
  | .indirectAck _ target requestId success =>
    self.handleIndirectAck target requestId success now
  | .gossip _ updates => self.handleGossip updates now

/-- The first half of `indirect_ping`: the request is tracked under a new id. -/
def indirectPing (target : NodeId) (proxies : List NodeId) (now : Nat) : SwimMembership :=
  { self with
    pendingIndirectPings := AList.insert self.requestIdCounter
      { target := target, proxies := proxies, timestamp := now, responsesReceived := 0 }
      self.pendingIndirectPings
    requestIdCounter := self.requestIdCounter + 1 }

def cleanupExpiredIndirectPings (now : Nat) : SwimMembership :=
  let timeout := self.config.failureTimeoutMs * 2 % 2 ^ 64
  let stale := self.pendingIndirectPings.entries.filter fun request =>
    ¬ now - request.2.timestamp < timeout
  { self with
    pendingIndirectPings := stale.foldl
      (fun pending request => pending.erase request.1) self.pendingIndirectPings }

/-! ## Members -/

def addMember (nodeInfo : NodeInfo) : SwimMembership :=
  self.setMember nodeInfo.id nodeInfo

def removeMember (nodeId : NodeId) : SwimMembership × Except MembershipError Unit :=
  match self.members.lookup nodeId with
  | some _ =>
    ({ self with members := self.members.erase nodeId }.removeSuspect nodeId, .ok ())
  | none => (self, .error (.nodeNotFound nodeId))

/-! ## One member

The rest of this module says what the operations do to the entry of one node and to
its membership in the suspects.
-/

@[simp] theorem setMember_suspects (self : SwimMembership) (nodeId : NodeId)
    (node : NodeInfo) : (self.setMember nodeId node).suspects = self.suspects := rfl

@[simp] theorem mem_suspects_addSuspect (self : SwimMembership) (nodeId x : NodeId) :
    x ∈ (self.addSuspect nodeId).suspects ↔ x = nodeId ∨ x ∈ self.suspects :=
  AList.mem_insert _

@[simp] theorem mem_suspects_removeSuspect (self : SwimMembership) (nodeId x : NodeId) :
    x ∈ (self.removeSuspect nodeId).suspects ↔ x ≠ nodeId ∧ x ∈ self.suspects :=
  AList.mem_erase

/-- Incarnation and status of a member. -/
def standing (nodeId : NodeId) : Option Standing :=
  (self.members.lookup nodeId).map NodeInfo.standing

def status (nodeId : NodeId) : Option NodeStatus :=
  (self.standing nodeId).map Prod.snd

@[simp] theorem standing_addSuspect (self : SwimMembership) (nodeId x : NodeId) :
    (self.addSuspect nodeId).standing x = self.standing x := rfl

@[simp] theorem standing_removeSuspect (self : SwimMembership) (nodeId x : NodeId) :
    (self.removeSuspect nodeId).standing x = self.standing x := rfl

theorem standing_setMember (nodeId : NodeId) (node : NodeInfo)
    (x : NodeId) : (self.setMember nodeId node).standing x =
      if x = nodeId then some node.standing else self.standing x := by
  rw [standing, setMember, HashMap.lookup_insert_eq]
  split <;> rfl

end

variable {self : SwimMembership}

theorem standing_of_lookup {nodeId : NodeId} {node : NodeInfo}
    (h : self.members.lookup nodeId = some node) :
    self.standing nodeId = some node.standing := by
  rw [standing, h, Option.map_some]

theorem standing_eq_none {nodeId : NodeId} :
    self.standing nodeId = none ↔ self.members.lookup nodeId = none := by
  simp [standing]

variable {y : NodeId}

private theorem standing_map_of_none (h : self.standing y = none) (f : Standing → Standing)
    (x : NodeId) :
    self.standing x = if x = y then (self.standing x).map f else self.standing x := by
  by_cases hx : x = y
  · rw [if_pos hx, hx, h, Option.map_none]
  · rw [if_neg hx]

variable {r : Standing} {f : Standing → Standing}

private theorem standing_map_of_some {r' : Standing} (h : self.standing y = some r)
    (hf : f r = r') (x : NodeId) :
    (if x = y then some r' else self.standing x) =
      if x = y then (self.standing x).map f else self.standing x := by
  by_cases hx : x = y
  · rw [if_pos hx, if_pos hx, hx, h, Option.map_some, hf]
  · rw [if_neg hx, if_neg hx]

private theorem standing_map_of_fixed (h : self.standing y = some r) (hf : f r = r) (x : NodeId) :
    self.standing x = if x = y then (self.standing x).map f else self.standing x := by
  by_cases hx : x = y
  · rw [if_pos hx, hx, h, Option.map_some, hf]
  · rw [if_neg hx]

/-! ### Marks -/

@[simp] theorem markSuspect_localNode (self : SwimMembership) (nodeId : NodeId)
    (now : Nat) : (self.markSuspect nodeId now).localNode = self.localNode := by
  unfold markSuspect
  split
  · split <;> rfl
  · rfl

@[simp] theorem markFailed_localNode (self : SwimMembership) (nodeId : NodeId)
    (now : Nat) : (self.markFailed nodeId now).localNode = self.localNode := by
  unfold markFailed
  split <;> rfl

section

variable (self : SwimMembership)

variable (nodeId : NodeId)

theorem standing_markSuspect (now : Nat) (x : NodeId) : (self.markSuspect nodeId now).standing x =
      if x = nodeId then (self.standing x).map fun r =>
        if r.2 = .alive then Register.write version r (r.1 + 1, .suspect) else r
      else self.standing x := by
  unfold markSuspect
  cases hl : self.members.lookup nodeId with
  | none => exact standing_map_of_none (standing_eq_none.mpr hl) _ x
  | some node =>
    have hs := standing_of_lookup hl
    by_cases halive : node.status = .alive
    · simp only [if_pos halive, standing_addSuspect, standing_setMember,
        NodeInfo.standing_updateStatus]
      refine standing_map_of_some hs ?_ x
      exact if_pos halive
    · simp only [if_neg halive]
      refine standing_map_of_fixed hs ?_ x
      exact if_neg halive

theorem mem_suspects_markSuspect (now : Nat)
    (x : NodeId) : x ∈ (self.markSuspect nodeId now).suspects ↔
      x ∈ self.suspects ∨ (x = nodeId ∧ ∃ r, self.standing nodeId = some r ∧
        r.2 = .alive) := by
  unfold markSuspect
  cases hl : self.members.lookup nodeId with
  | none => simp [standing_eq_none.mpr hl]
  | some node =>
    have hs := standing_of_lookup hl
    by_cases halive : node.status = .alive
    · simp only [if_pos halive, mem_suspects_addSuspect, setMember_suspects]
      constructor
      · rintro (rfl | h)
        · exact .inr ⟨rfl, _, hs, halive⟩
        · exact .inl h
      · rintro (h | ⟨rfl, _⟩)
        · exact .inr h
        · exact .inl rfl
    · simp only [if_neg halive]
      refine ⟨.inl, ?_⟩
      rintro (h | ⟨_, r, hr, hr2⟩)
      · exact h
      · rw [hs] at hr
        obtain rfl := Option.some.inj hr
        exact absurd hr2 halive

theorem standing_markFailed (now : Nat) (x : NodeId) : (self.markFailed nodeId now).standing x =
      if x = nodeId then (self.standing x).map fun r =>
        Register.write version r (r.1 + 1, .failed)
      else self.standing x := by
  unfold markFailed
  cases hl : self.members.lookup nodeId with
  | none => exact standing_map_of_none (standing_eq_none.mpr hl) _ x
  | some =>
    simp only [standing_removeSuspect, standing_setMember, NodeInfo.standing_updateStatus]
    refine standing_map_of_some (standing_of_lookup hl) ?_ x
    rfl

theorem mem_suspects_markFailed (now : Nat)
    (x : NodeId) : x ∈ (self.markFailed nodeId now).suspects ↔
      x ∈ self.suspects ∧ (x = nodeId → self.standing x = none) := by
  unfold markFailed
  cases hl : self.members.lookup nodeId with
  | none =>
    refine ⟨fun h => ⟨h, ?_⟩, And.left⟩
    rintro rfl
    exact standing_eq_none.mpr hl
  | some =>
    have hs := standing_of_lookup hl
    simp only [mem_suspects_removeSuspect, setMember_suspects]
    constructor
    · rintro ⟨hne, h⟩
      exact ⟨h, fun heq => absurd heq hne⟩
    · rintro ⟨h, himp⟩
      refine ⟨?_, h⟩
      rintro rfl
      rw [himp rfl] at hs
      cases hs

end

/-! ### Suspicion timeouts -/

variable {now : Nat} {x : NodeId}

theorem mem_expiredSuspects :
    x ∈ self.expiredSuspects now ↔ x ∈ self.suspects ∧ self.expired x now = true := by
  simp only [expiredSuspects, List.mem_filter, AList.mem_keys]

private theorem standing_of_expired (h : self.expired x now = true) : ∃ r, self.standing x = some r
    := by
  unfold expired at h
  cases hl : self.members.lookup x with
  | none => simp [hl] at h
  | some => exact ⟨_, standing_of_lookup hl⟩

private theorem foldl_markFailed (now : Nat) (ids : List NodeId) :
    ids.Nodup → ∀ self : SwimMembership,
    let after := ids.foldl (fun self nodeId => self.markFailed nodeId now) self
    after.localNode = self.localNode ∧
      (∀ x, after.standing x = if x ∈ ids then (self.standing x).map fun r =>
          Register.write version r (r.1 + 1, .failed) else self.standing x) ∧
      ∀ x, x ∈ after.suspects ↔
        x ∈ self.suspects ∧ (x ∈ ids → self.standing x = none) := by
  induction ids with
  | nil => intro _ self; exact ⟨rfl, by simp, by simp⟩
  | cons y ys ih =>
    intro hnd self
    obtain ⟨hy, hys⟩ := List.nodup_cons.mp hnd
    obtain ⟨hlocal, hstanding, hsuspects⟩ := ih hys (self.markFailed y now)
    refine ⟨hlocal.trans (markFailed_localNode _ _ _), fun x => ?_, fun x => ?_⟩
    · rw [List.foldl_cons, hstanding, standing_markFailed]
      by_cases hx : x = y
      · subst hx
        simp [hy]
      · simp [hx]
    · rw [List.foldl_cons, hsuspects, mem_suspects_markFailed, standing_markFailed]
      by_cases hx : x = y
      · subst hx
        simp [hy]
      · simp [hx]

section

variable (self : SwimMembership)

private theorem expiredSuspects_nodup (now : Nat) : (self.expiredSuspects now).Nodup :=
  (AList.keys_nodup _).filter _

@[simp] theorem processSuspicionTimeouts_localNode (self : SwimMembership) (now : Nat) :
    (self.processSuspicionTimeouts now).localNode = self.localNode :=
  (foldl_markFailed now _ (self.expiredSuspects_nodup now) self).1

theorem standing_processSuspicionTimeouts (now : Nat)
    (x : NodeId) : (self.processSuspicionTimeouts now).standing x =
      if x ∈ self.expiredSuspects now then (self.standing x).map fun r =>
        Register.write version r (r.1 + 1, .failed)
      else self.standing x :=
  (foldl_markFailed now _ (self.expiredSuspects_nodup now) self).2.1 x

theorem mem_suspects_processSuspicionTimeouts (now : Nat)
    (x : NodeId) : x ∈ (self.processSuspicionTimeouts now).suspects ↔
      x ∈ self.suspects ∧ x ∉ self.expiredSuspects now := by
  rw [processSuspicionTimeouts,
    (foldl_markFailed now _ (self.expiredSuspects_nodup now) self).2.2 x]
  refine and_congr_right fun _ => ⟨fun h hexp => ?_, fun h hexp => absurd hexp h⟩
  obtain ⟨r, hr⟩ := standing_of_expired (mem_expiredSuspects.mp hexp).2
  rw [h hexp] at hr
  cases hr

/-! ### Updates

A message is a list of calls of `update_node_info`.
-/

/-- One call of `update_node_info`. -/
abbrev Call := NodeId × Standing

/-- Updates one after the other. -/
def applyCalls (calls : List Call) (now : Nat) : SwimMembership :=
  calls.foldl (fun self call =>
    self.updateNodeInfo call.1 call.2.2 call.2.1 now) self

/-- What a call says about a member. -/
def callAbout (x : NodeId) (call : Call) : Option Standing :=
  if call.1 = x then some call.2 else none

def updateCalls (updates : List NodeInfo) : List Call :=
  (updates.filter fun update => update.id ≠ self.localNode.id).map fun update =>
    (update.id, update.standing)

@[simp] theorem updateNodeInfo_localNode (self : SwimMembership) (nodeId : NodeId)
    (status : NodeStatus) (incarnation : UInt64) (now : Nat) :
    (self.updateNodeInfo nodeId status incarnation now).localNode = self.localNode := by
  unfold updateNodeInfo
  split
  · split
    · dsimp only
      split <;> rfl
    · rfl
  · rfl

theorem standing_updateNodeInfo (nodeId : NodeId)
    (status : NodeStatus) (incarnation : UInt64) (now : Nat) (x : NodeId) :
    (self.updateNodeInfo nodeId status incarnation now).standing x =
      if x = nodeId then (self.standing x).map fun r =>
        Register.write version r (incarnation, status)
      else self.standing x := by
  unfold updateNodeInfo
  cases hl : self.members.lookup nodeId with
  | none => exact standing_map_of_none (standing_eq_none.mpr hl) _ x
  | some node =>
    have hs := standing_of_lookup hl
    have hset : ∀ m : SwimMembership, (if status = .alive then m.removeSuspect nodeId
        else m).standing x = m.standing x := by
      intro m
      split <;> rfl
    by_cases hle : incarnation ≥ node.incarnation
    · simp only [if_pos hle, hset, standing_setMember, NodeInfo.standing_updateStatus]
      refine standing_map_of_some hs ?_ x
      rfl
    · simp only [if_neg hle]
      refine standing_map_of_fixed hs ?_ x
      exact if_neg fun hv => hle (UInt64.le_iff_toNat_le.mpr hv)

theorem mem_suspects_updateNodeInfo (nodeId : NodeId)
    (status : NodeStatus) (incarnation : UInt64) (now : Nat) (x : NodeId) :
    x ∈ (self.updateNodeInfo nodeId status incarnation now).suspects ↔
      x ∈ self.suspects ∧ (x = nodeId → ∀ r, self.standing x = some r →
        version r ≤ incarnation.toNat → status ≠ .alive) := by
  unfold updateNodeInfo
  cases hl : self.members.lookup nodeId with
  | none =>
    refine ⟨fun h => ⟨h, ?_⟩, And.left⟩
    rintro rfl r hr
    rw [standing_eq_none.mpr hl] at hr
    cases hr
  | some node =>
    have hs := standing_of_lookup hl
    by_cases hle : incarnation ≥ node.incarnation
    · simp only [if_pos hle]
      by_cases halive : status = .alive
      · simp only [if_pos halive, mem_suspects_removeSuspect, setMember_suspects]
        constructor
        · rintro ⟨hne, h⟩
          exact ⟨h, fun heq => absurd heq hne⟩
        · rintro ⟨h, himp⟩
          refine ⟨?_, h⟩
          rintro rfl
          exact himp rfl _ hs (UInt64.le_iff_toNat_le.mp hle) halive
      · simp only [if_neg halive, setMember_suspects]
        exact ⟨fun h => ⟨h, fun _ _ _ _ => halive⟩, And.left⟩
    · simp only [if_neg hle]
      refine ⟨fun h => ⟨h, ?_⟩, And.left⟩
      rintro rfl r hr hv
      rw [hs] at hr
      obtain rfl := Option.some.inj hr
      exact absurd (UInt64.le_iff_toNat_le.mpr hv) hle

theorem applyCalls_cons (call : Call) (calls : List Call)
    (now : Nat) : self.applyCalls (call :: calls) now =
      (self.updateNodeInfo call.1 call.2.2 call.2.1 now).applyCalls calls now := rfl

end

@[simp] theorem applyCalls_localNode (calls : List Call) (now : Nat) :
    ∀ self : SwimMembership, (self.applyCalls calls now).localNode = self.localNode := by
  induction calls with
  | nil => intro self; rfl
  | cons call calls ih =>
    intro self
    rw [applyCalls_cons, ih, updateNodeInfo_localNode]

theorem processMembershipUpdates_eq (updates : List NodeInfo) (now : Nat) :
    ∀ self : SwimMembership, self.processMembershipUpdates updates now =
      self.applyCalls (self.updateCalls updates) now := by
  induction updates with
  | nil => intro self; rfl
  | cons update updates ih =>
    intro self
    unfold processMembershipUpdates at ih ⊢
    rw [List.foldl_cons, ih]
    by_cases h : update.id = self.localNode.id
    · simp [updateCalls, h]
    · simp only [if_neg h, updateCalls, updateNodeInfo_localNode]
      rw [List.filter_cons_of_pos (by simpa using h), List.map_cons, applyCalls_cons]
      rfl

section

variable (self : SwimMembership)

variable (source : NodeId)

/-- What a ping or an acknowledgement says. -/
def contactCalls (incarnation : UInt64) (updates : List NodeInfo) : List Call :=
  (source, (incarnation, .alive)) :: self.updateCalls updates

theorem handlePing_eq (incarnation : UInt64)
    (updates : List NodeInfo) (now : Nat) : self.handlePing source incarnation updates now =
      self.applyCalls (self.contactCalls source incarnation updates) now := by
  rw [handlePing, processMembershipUpdates_eq, contactCalls, applyCalls_cons, updateCalls,
    updateNodeInfo_localNode]
  rfl

theorem handleAck_eq (incarnation : UInt64)
    (updates : List NodeInfo) (now : Nat) : self.handleAck source incarnation updates now =
      self.applyCalls (self.contactCalls source incarnation updates) now :=
  handlePing_eq self source incarnation updates now

theorem handleGossip_eq (updates : List NodeInfo) (now : Nat) :
    self.handleGossip updates now = self.applyCalls (self.updateCalls updates) now :=
  processMembershipUpdates_eq updates now self

end

theorem standing_applyCalls (x : NodeId) (calls : List Call) (now : Nat) :
    ∀ self : SwimMembership, (self.applyCalls calls now).standing x =
      (self.standing x).map fun r =>
        (calls.filterMap (callAbout x)).foldl (Register.write version) r := by
  induction calls with
  | nil => intro self; simp [applyCalls]
  | cons call calls ih =>
    intro self
    rw [applyCalls_cons, ih, standing_updateNodeInfo]
    by_cases h : call.1 = x
    · rw [if_pos h.symm, Option.map_map,
        List.filterMap_cons_some (show callAbout x call = some call.2 from if_pos h)]
      rfl
    · rw [if_neg fun hx => h hx.symm,
        List.filterMap_cons_none (show callAbout x call = none from if_neg h)]

theorem mem_suspects_applyCalls (x : NodeId) (calls : List Call) (now : Nat) :
    ∀ self : SwimMembership, x ∈ (self.applyCalls calls now).suspects ↔
      x ∈ self.suspects ∧ ∀ r, self.standing x = some r →
        ∀ u ∈ Register.accepted version r (calls.filterMap (callAbout x)), u.2 ≠ .alive := by
  induction calls with
  | nil => intro self; simp [applyCalls, Register.accepted]
  | cons call calls ih =>
    intro self
    rw [applyCalls_cons, ih, mem_suspects_updateNodeInfo, standing_updateNodeInfo]
    by_cases h : call.1 = x
    · rw [List.filterMap_cons_some (show callAbout x call = some call.2 from if_pos h),
        if_pos h.symm]
      cases hs : self.standing x with
      | none => simp
      | some r =>
        have hver : version call.2 = call.2.1.toNat := rfl
        by_cases hle : version r ≤ version call.2
        · simp only [Option.map_some, Option.some.injEq, forall_eq', Register.write,
            Register.accepted, if_true, List.forall_mem_cons, ← hver, hle, h,
            forall_const, and_assoc]
        · simp [Register.accepted, Register.write, hle, h, hver ▸ hle]
    · rw [List.filterMap_cons_none (show callAbout x call = none from if_neg h),
        if_neg fun hx => h hx.symm]
      simp [show ¬ x = call.1 from fun hx => h hx.symm]

end SwimMembership

/-! ## A node with one peer -/

def here : NodeId := ⟨1⟩

def peer : NodeId := ⟨2⟩

def pair : SwimMembership := (SwimMembership.new (.new here 0) .default).addMember (.new peer 0)

end Kaelix.Cluster.Membership
