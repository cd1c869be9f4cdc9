import Kaelix.Lib.Run
import Kaelix.Cluster.Membership.Gossip

/-!
# The suspects and the statuses

A node is a suspect in two places: its entry has the status `Suspect`, and it is in the set that
`process_suspicion_timeouts` goes through.  The two are written separately:
gossip that a node is `Suspect`, `Failed` or `Left` leaves the set alone, and so does `add_member`;
`handle_indirect_ack` and the marks write the set even when the status is refused.
-/

namespace Kaelix.Cluster.Membership

open Lib

/-- The operations of a node. -/
inductive Event
  | addMember (nodeInfo : NodeInfo)
  | removeMember (nodeId : NodeId)
  | markSuspect (nodeId : NodeId) (now : Nat)
  | markFailed (nodeId : NodeId) (now : Nat)
  | processSuspicionTimeouts (now : Nat)
  | message (message : SwimMessage) (now : Nat)
  | indirectPing (target : NodeId) (proxies : List NodeId) (now : Nat)
  | cleanupExpiredIndirectPings (now : Nat)

instance : Inhabited Event := ⟨.processSuspicionTimeouts 0⟩

namespace SwimMembership

section

variable (m : SwimMembership)

/-- The node after an operation. -/
def apply : Event → SwimMembership
  | .addMember nodeInfo => m.addMember nodeInfo
  | .removeMember nodeId => (m.removeMember nodeId).1
  | .markSuspect nodeId now => m.markSuspect nodeId now
  | .markFailed nodeId now => m.markFailed nodeId now
  | .processSuspicionTimeouts now => m.processSuspicionTimeouts now
  | .message message now => m.handleSwimMessage message now
  | .indirectPing target proxies now => m.indirectPing target proxies now
  | .cleanupExpiredIndirectPings now => m.cleanupExpiredIndirectPings now

def step (e : Event) : Option SwimMembership := some (m.apply e)

/-- The suspects are exactly the members with the status `Suspect`. -/
def SuspectsAgree : Prop := ∀ x, x ∈ m.suspects ↔ m.status x = some .suspect

/-- All members are alive, and none is suspected. -/
def AllAlive : Prop :=
  m.suspects = ∅ ∧ ∀ x r, m.standing x = some r → r.2 = .alive

theorem AllAlive.suspectsAgree {m : SwimMembership} (h : m.AllAlive) : m.SuspectsAgree := by
  intro x
  rw [h.1]
  refine ⟨fun hx => absurd hx (AList.notMem_empty x), fun hx => ?_⟩
  obtain ⟨r, hr, hr2⟩ := Option.map_eq_some_iff.mp hx
  rw [h.2 x r hr] at hr2
  cases hr2

/-! ## When an operation keeps the agreement -/

/-- The updates about a member that are accepted, in this order, leave it `Suspect`
exactly if it was and none of them says that it is alive. -/
def Settles (r : Standing) (taken : List Standing) : Prop :=
  (taken.getLastD r).2 = .suspect ↔ r.2 = .suspect ∧ ∀ u ∈ taken, u.2 ≠ .alive

instance (r : Standing) (taken : List Standing) : Decidable (Settles r taken) :=
  inferInstanceAs (Decidable (_ ↔ _))

/-- The calls settle the status of every member. -/
def CallsSettle (calls : List Call) : Prop :=
  ∀ x ∈ m.members.keys, ∀ r ∈ m.standing x,
    Settles r (Register.accepted version r (calls.filterMap (callAbout x)))

instance (m : SwimMembership) (calls : List Call) : Decidable (m.CallsSettle calls) :=
  inferInstanceAs (Decidable (∀ x ∈ m.members.keys, ∀ r ∈ m.standing x, _))

/-- When a message keeps the agreement. -/
def MessageKeeps : SwimMessage → Prop
  | .ping source incarnation updates =>
    m.CallsSettle (m.contactCalls source incarnation updates)
  | .ack source incarnation updates =>
    m.CallsSettle (m.contactCalls source incarnation updates)
  | .gossip _ updates => m.CallsSettle (m.updateCalls updates)
  | .indirectPing _ _ _ => True
  | .indirectAck _ target requestId success =>
    requestId ∈ m.pendingIndirectPings → success = true →
      ∀ r ∈ m.standing target, r.2 = .suspect → r.1 = 0

instance (m : SwimMembership) (message : SwimMessage) : Decidable (m.MessageKeeps message) := by
  cases message <;> unfold MessageKeeps <;> infer_instance

/-- When an operation keeps the agreement. -/
def KeepsAgreement : Event → Prop
  | .addMember nodeInfo =>
    nodeInfo.status = .suspect ↔ m.status nodeInfo.id = some .suspect
  | .markSuspect nodeId _ => m.standing nodeId ≠ some (0xFFFFFFFFFFFFFFFF, .alive)
  | .markFailed nodeId _ => m.standing nodeId ≠ some (0xFFFFFFFFFFFFFFFF, .suspect)
  | .processSuspicionTimeouts now => ∀ x ∈ m.expiredSuspects now,
      m.standing x ≠ some (0xFFFFFFFFFFFFFFFF, .suspect)
  | .message message _ => m.MessageKeeps message
  | .removeMember _ => True
  | .indirectPing _ _ _ => True
  | .cleanupExpiredIndirectPings _ => True

end

instance (m : SwimMembership) (e : Event) : Decidable (m.KeepsAgreement e) := by
  cases e <;> unfold KeepsAgreement <;> infer_instance

/-! ## One operation -/

variable {m : SwimMembership}

private theorem suspectsAgree_iff_at {m' : SwimMembership} (h : m.SuspectsAgree)
    {y : NodeId} (hoth : ∀ x, x ≠ y →
      (x ∈ m'.suspects ↔ x ∈ m.suspects) ∧ m'.standing x = m.standing x) :
    m'.SuspectsAgree ↔ (y ∈ m'.suspects ↔ m'.status y = some .suspect) := by
  refine ⟨fun h' => h' y, fun hy x => ?_⟩
  by_cases hx : x = y
  · rw [hx]
    exact hy
  · obtain ⟨hsus, hst⟩ := hoth x hx
    rw [hsus, h x, status, status, hst]

variable (h : m.SuspectsAgree)
include h

theorem addMember_agree_iff (nodeInfo : NodeInfo) :
    (m.addMember nodeInfo).SuspectsAgree ↔ m.KeepsAgreement (.addMember nodeInfo) := by
  rw [suspectsAgree_iff_at (y := nodeInfo.id) h]
  · have hst : (m.addMember nodeInfo).status nodeInfo.id = some nodeInfo.status := by
      rw [status, addMember, standing_setMember, if_pos rfl]
      rfl
    rw [hst, Option.some.injEq]
    exact (iff_congr (h nodeInfo.id) Iff.rfl).trans iff_comm
  · intro x hx
    refine ⟨Iff.rfl, ?_⟩
    rw [addMember, standing_setMember, if_neg hx]

theorem removeMember_agree (nodeId : NodeId) : (m.removeMember nodeId).1.SuspectsAgree := by
  unfold removeMember
  cases hl : m.members.lookup nodeId with
  | none => exact h
  | some =>
    have hst : ∀ x, standing (removeSuspect
        { m with members := m.members.erase nodeId } nodeId) x =
        if x = nodeId then none else m.standing x := by
      intro x
      rw [standing_removeSuspect, standing, HashMap.lookup_erase_eq]
      split <;> rfl
    refine (suspectsAgree_iff_at (y := nodeId) h ?_).mpr ?_
    · intro x hx
      refine ⟨?_, (hst x).trans (if_neg hx)⟩
      rw [mem_suspects_removeSuspect]
      exact ⟨And.right, fun hs => ⟨hx, hs⟩⟩
    · rw [status, hst, if_pos rfl, mem_suspects_removeSuspect]
      simp

theorem markSuspect_agree_iff (nodeId : NodeId) (now : Nat) :
    (m.markSuspect nodeId now).SuspectsAgree ↔
      m.KeepsAgreement (.markSuspect nodeId now) := by
  rw [suspectsAgree_iff_at (y := nodeId) h]
  · rw [mem_suspects_markSuspect, status, standing_markSuspect, if_pos rfl, h nodeId, status]
    show _ ↔ m.standing nodeId ≠ _
    cases m.standing nodeId with
    | none => simp
    | some r =>
      obtain ⟨inc, st⟩ := r
      by_cases halive : st = .alive
      · subst halive
        by_cases hmax : inc = 0xFFFFFFFFFFFFFFFF <;> simp [write_succ, hmax]
      · simp [halive]
  · intro x hx
    rw [mem_suspects_markSuspect, standing_markSuspect, if_neg hx]
    exact ⟨or_iff_left fun hand => hx hand.1, rfl⟩

private theorem markFailed_agree_iff (nodeId : NodeId) (now : Nat) :
    (m.markFailed nodeId now).SuspectsAgree ↔
      m.KeepsAgreement (.markFailed nodeId now) := by
  rw [suspectsAgree_iff_at (y := nodeId) h]
  · rw [mem_suspects_markFailed, status, standing_markFailed, if_pos rfl, h nodeId, status]
    show _ ↔ m.standing nodeId ≠ _
    cases m.standing nodeId with
    | none => simp
    | some r =>
      obtain ⟨inc, st⟩ := r
      by_cases hmax : inc = 0xFFFFFFFFFFFFFFFF <;> simp [write_succ, hmax]
  · intro x hx
    rw [mem_suspects_markFailed, standing_markFailed, if_neg hx]
    exact ⟨and_iff_left fun heq => absurd heq hx, rfl⟩

private theorem processSuspicionTimeouts_agree_iff (now : Nat) :
    (m.processSuspicionTimeouts now).SuspectsAgree ↔
      m.KeepsAgreement (.processSuspicionTimeouts now) := by
  refine forall_congr' fun x => ?_
  rw [mem_suspects_processSuspicionTimeouts, status, standing_processSuspicionTimeouts]
  by_cases hx : x ∈ m.expiredSuspects now
  · -- an expired suspect has the status `Suspect`, and leaves the set in any case
    obtain ⟨r, hr, hr2⟩ := Option.map_eq_some_iff.mp ((h x).mp (mem_expiredSuspects.mp hx).1)
    obtain ⟨inc, st⟩ := r
    obtain rfl : st = .suspect := hr2
    by_cases hmax : inc = 0xFFFFFFFFFFFFFFFF <;> simp [hx, hr, write_succ, hmax]
  · have hsame := h x
    rw [status] at hsame
    simp [hx, hsame]

private theorem applyCalls_agree_iff (calls : List Call) (now : Nat) :
    (m.applyCalls calls now).SuspectsAgree ↔ m.CallsSettle calls := by
  refine forall_congr' fun x => ?_
  have hx := h x
  rw [status] at hx
  rw [mem_suspects_applyCalls, status, standing_applyCalls, hx]
  cases hs : m.standing x with
  | none => simp
  | some =>
    have hmem : x ∈ m.members.keys := by
      refine AList.mem_keys.mp (AList.lookup_isSome.mp ?_)
      rw [standing] at hs
      cases hl : m.members.lookup x with
      | none => rw [hl] at hs; cases hs
      | some => rfl
    simp only [Option.map_some, Option.some.injEq, forall_eq', Option.mem_def, hmem,
      forall_const, Register.foldl_write, Settles]
    exact iff_comm

private theorem handleIndirectAck_agree_iff (source target : NodeId)
    (requestId : Nat) (success : Bool) (now : Nat) :
    (m.handleIndirectAck target requestId success now).SuspectsAgree ↔
      m.MessageKeeps (.indirectAck source target requestId success) := by
  show _ ↔ (requestId ∈ m.pendingIndirectPings → success = true →
    ∀ r ∈ m.standing target, r.2 = .suspect → r.1 = 0)
  unfold handleIndirectAck
  rw [← AList.lookup_isSome]
  cases m.pendingIndirectPings.lookup requestId with
  | none => exact iff_of_true h fun hp => absurd hp (by simp)
  | some request =>
    cases success with
    | false => exact iff_of_true h fun _ hs => absurd hs (by simp)
    | true =>
      -- the pending request plays no part in the agreement
      let m' : SwimMembership := { m with
        pendingIndirectPings := AList.insert requestId
          { request with responsesReceived := request.responsesReceived + 1 }
          m.pendingIndirectPings }
      show ((m'.updateNodeInfo target .alive 0 now).removeSuspect target).SuspectsAgree
        ↔ _
      have hoth : ∀ x, x ≠ target →
          (x ∈ ((m'.updateNodeInfo target .alive 0 now).removeSuspect target).suspects
            ↔ x ∈ m.suspects) ∧
          ((m'.updateNodeInfo target .alive 0 now).removeSuspect target).standing x =
            m.standing x := by
        intro x hx
        rw [mem_suspects_removeSuspect, mem_suspects_updateNodeInfo,
          standing_removeSuspect, standing_updateNodeInfo, if_neg hx]
        exact ⟨⟨fun hand => hand.2.1, fun hs => ⟨hx, hs, fun heq => absurd heq hx⟩⟩, rfl⟩
      rw [suspectsAgree_iff_at (y := target) h hoth, mem_suspects_removeSuspect,
        status, standing_removeSuspect, standing_updateNodeInfo, if_pos rfl]
      rw [show m'.standing target = m.standing target from rfl]
      cases m.standing target with
      | none => simp
      | some r =>
        obtain ⟨inc, st⟩ := r
        have hzero : inc.toNat = 0 ↔ inc = 0 := by
          rw [← UInt64.toNat_inj]
          rfl
        by_cases hinc : inc = 0
        · simp [Register.write, version, hinc]
        · have : ¬ inc.toNat = 0 := mt hzero.mp hinc
          simp [Register.write, version, hinc, this]

private theorem handleSwimMessage_agree_iff (message : SwimMessage)
    (now : Nat) : (m.handleSwimMessage message now).SuspectsAgree ↔
      m.MessageKeeps message := by
  cases message with
  | ping =>
    rw [handleSwimMessage, handlePing_eq]
    exact applyCalls_agree_iff h _ now
  | ack =>
    rw [handleSwimMessage, handleAck_eq]
    exact applyCalls_agree_iff h _ now
  | gossip =>
    rw [handleSwimMessage, handleGossip_eq]
    exact applyCalls_agree_iff h _ now
  | indirectPing => exact iff_of_true h trivial
  | indirectAck source target requestId success =>
    exact handleIndirectAck_agree_iff h source target requestId success now

private theorem apply_agree_iff (e : Event) : (m.apply e).SuspectsAgree ↔ m.KeepsAgreement e := by
  cases e with
  | addMember nodeInfo => exact addMember_agree_iff h nodeInfo
  | removeMember nodeId => exact iff_of_true (removeMember_agree h nodeId) trivial
  | markSuspect nodeId now => exact markSuspect_agree_iff h nodeId now
  | markFailed nodeId now => exact markFailed_agree_iff h nodeId now
  | processSuspicionTimeouts now => exact processSuspicionTimeouts_agree_iff h now
  | message message now => exact handleSwimMessage_agree_iff h message now
  | _ => exact iff_of_true h trivial

end SwimMembership

/-! ## Whole runs -/

/-- A run of one member. -/
abbrev SwimRun := Run SwimMembership.step

theorem SwimRun.state_succ (ρ : SwimRun) {i : Nat} (hi : i < ρ.length) :
    ρ.state (i + 1) = (ρ.state i).apply (ρ.event i) :=
  (Option.some.inj (ρ.step_eq i hi)).symm

/-- The suspects agree with the statuses at every moment of a run exactly if every
operation of the run meets its condition. -/
theorem suspectsAgree_iff_keepsAgreement (ρ : SwimRun) (hinit : (ρ.state 0).AllAlive) :
    (∀ i, i ≤ ρ.length → (ρ.state i).SuspectsAgree) ↔
      ∀ i, i < ρ.length → (ρ.state i).KeepsAgreement (ρ.event i) := by
  constructor
  · intro h i hi
    have hnext := h (i + 1) hi
    rw [SwimRun.state_succ ρ hi] at hnext
    exact (SwimMembership.apply_agree_iff (h i hi.le) (ρ.event i)).mp hnext
  · intro hkeep
    refine ρ.invariant hinit.suspectsAgree fun i hi ih => ?_
    rw [SwimRun.state_succ ρ hi]
    exact (SwimMembership.apply_agree_iff ih (ρ.event i)).mpr (hkeep i hi)

theorem pair_allAlive : pair.AllAlive := by
  refine ⟨rfl, fun x r hr => ?_⟩
  rw [pair, SwimMembership.addMember, SwimMembership.standing_setMember] at hr
  split at hr
  · exact (Option.some.inj hr) ▸ rfl
  · rw [SwimMembership.standing, SwimMembership.new, HashMap.lookup_insert_eq] at hr
    split at hr
    · exact (Option.some.inj hr) ▸ rfl
    · cases hr

/-- The peer is suspected, refutes the suspicion, is suspected again and fails. -/
def suspicionRun : SwimRun :=
  Run.ofEvents SwimMembership.step pair
    [.markSuspect peer 1, .message (.ack peer 1 [aboutPeer .alive 1]) 2,
     .markSuspect peer 3, .processSuspicionTimeouts 20000] (by decide)

/-- Every operation of that run meets its condition. -/
theorem suspectsAgree_suspicion : peer ∈ (suspicionRun.state 1).suspects ∧
    (suspicionRun.state 4).status peer = some .failed ∧
    ∀ i, i ≤ suspicionRun.length → (suspicionRun.state i).SuspectsAgree :=
  ⟨by decide, by decide,
    (suspectsAgree_iff_keepsAgreement suspicionRun pair_allAlive).mpr (by decide)⟩

def gossipSuspectRun : SwimRun :=
  Run.ofEvents SwimMembership.step pair
    [.message (.gossip ⟨3⟩ [aboutPeer .suspect 1]) 1] (by decide)

/-- Without the condition they do not agree: a suspicion that gossip reports never
reaches the set. -/
theorem suspectsAgree_fails : ¬ ∀ ρ : SwimRun, (ρ.state 0).AllAlive →
    ∀ i, i ≤ ρ.length → (ρ.state i).SuspectsAgree := by
  intro h
  have hagree := h gossipSuspectRun pair_allAlive 1 (Nat.le_refl 1) peer
  exact absurd (hagree.mpr (by decide)) (by decide)

end Kaelix.Cluster.Membership
