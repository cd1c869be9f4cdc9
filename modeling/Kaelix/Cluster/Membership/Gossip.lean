import Kaelix.Cluster.Membership.Swim

/-!
# Convergence of gossip

`process_membership_updates` writes the entry of each member with the updates about
it.  Among updates of one incarnation the last one wins.

The recorded incarnations therefore never depend on the order in which updates
arrive or on how often they do.  The statuses do not either, exactly if all updates of
a member's highest incarnation carry the same status.
-/

namespace Kaelix.Cluster.Membership

open Lib

namespace SwimMembership

variable (m : SwimMembership)

def updateAbout (x : NodeId) (update : NodeInfo) : Option Standing :=
  if update.id ≠ m.localNode.id ∧ update.id = x then some update.standing else none

theorem updateAbout_eq_some {m : SwimMembership} {x : NodeId} {update : NodeInfo}
    {u : Standing} : m.updateAbout x update = some u ↔
      (update.id ≠ m.localNode.id ∧ update.id = x) ∧ update.standing = u := by
  simp only [updateAbout, Option.ite_none_right_eq_some, Option.some.injEq]

private theorem filterMap_updateCalls (x : NodeId) (us : List NodeInfo) :
    (m.updateCalls us).filterMap (callAbout x) = us.filterMap (m.updateAbout x) := by
  rw [updateCalls, List.filterMap_map, List.filterMap_filter]
  refine List.filterMap_congr fun update _ => ?_
  by_cases h : update.id = m.localNode.id
  · simp [updateAbout, h]
  · simp [updateAbout, callAbout, h]

variable (us : List NodeInfo)

theorem standing_processMembershipUpdates
    (now : Nat) (x : NodeId) : (m.processMembershipUpdates us now).standing x =
      (m.standing x).map fun r =>
        (us.filterMap (m.updateAbout x)).foldl (Register.write version) r := by
  rw [processMembershipUpdates_eq, standing_applyCalls, filterMap_updateCalls]

/-- The same updates, in any order and each any number of times. -/
def SameUpdates (xs us : List NodeInfo) : Prop := ∀ u, u ∈ xs ↔ u ∈ us

/-- Whatever the order and the repetitions, every member ends up with the same
incarnation and status. -/
def Converges : Prop :=
  ∀ xs ys, SameUpdates xs us → SameUpdates ys us → ∀ now now' x,
    (m.processMembershipUpdates xs now).standing x =
      (m.processMembershipUpdates ys now').standing x

/-- Whatever the order and the repetitions, every member ends up with the same
incarnation. -/
def IncarnationsConverge : Prop :=
  ∀ xs ys, SameUpdates xs us → SameUpdates ys us → ∀ now now' x,
    ((m.processMembershipUpdates xs now).standing x).map Prod.fst =
      ((m.processMembershipUpdates ys now').standing x).map Prod.fst

/-- Two updates about one other member carry the same status if their incarnation is
the highest of the updates about it and not below the recorded one. -/
def NoConflict : Prop :=
  ∀ u ∈ us, ∀ w ∈ us, u.id ≠ m.localNode.id → w.id = u.id →
    w.incarnation = u.incarnation → ∀ r ∈ m.standing u.id, r.1 ≤ u.incarnation →
    (∀ z ∈ us, z.id = u.id → z.incarnation ≤ u.incarnation) → w.status = u.status

instance (m : SwimMembership) (us : List NodeInfo) : Decidable (m.NoConflict us) :=
  inferInstanceAs (Decidable (∀ u ∈ us, ∀ w ∈ us, _))

private theorem noConflict_iff_noTie :
    m.NoConflict us ↔ ∀ x r, m.standing x = some r →
      Register.NoTie version r (us.filterMap (m.updateAbout x)) := by
  constructor
  · intro h x r hr u hu w hw hge heq hmax
    obtain ⟨a, ha, hfa⟩ := List.mem_filterMap.mp hu
    obtain ⟨b, hb, hfb⟩ := List.mem_filterMap.mp hw
    obtain ⟨⟨hal, rfl⟩, rfl⟩ := updateAbout_eq_some.mp hfa
    obtain ⟨⟨hbl, hid⟩, rfl⟩ := updateAbout_eq_some.mp hfb
    have hinc : b.incarnation = a.incarnation := UInt64.toNat_inj.mp heq
    refine Prod.ext hinc (h a ha b hb hal hid hinc r hr ?_ ?_)
    · exact UInt64.le_iff_toNat_le.mpr hge
    · intro z hz hzid
      refine UInt64.le_iff_toNat_le.mpr (hmax z.standing ?_)
      exact List.mem_filterMap.mpr ⟨z, hz, updateAbout_eq_some.mpr ⟨⟨hzid ▸ hal, hzid⟩, rfl⟩⟩
  · intro h u hu w hw hul hid hinc r hr hge hmax
    have hmem : ∀ z ∈ us, z.id = u.id →
        z.standing ∈ us.filterMap (m.updateAbout u.id) := by
      intro z hz hzid
      exact List.mem_filterMap.mpr ⟨z, hz, updateAbout_eq_some.mpr ⟨⟨hzid ▸ hul, hzid⟩, rfl⟩⟩
    refine congrArg Prod.snd (h u.id r hr u.standing (hmem u hu rfl) w.standing
      (hmem w hw hid) (UInt64.le_iff_toNat_le.mp hge) (congrArg UInt64.toNat hinc) ?_)
    intro z hz
    obtain ⟨c, hc, hfc⟩ := List.mem_filterMap.mp hz
    obtain ⟨⟨_, hcid⟩, rfl⟩ := updateAbout_eq_some.mp hfc
    exact UInt64.le_iff_toNat_le.mp (hmax c hc hcid)

private theorem incarnationsConverge : m.IncarnationsConverge us := by
  intro xs ys hxs hys now now' x
  rw [standing_processMembershipUpdates, standing_processMembershipUpdates]
  cases m.standing x with
  | none => rfl
  | some r =>
    have hmem := Register.mem_filterMap_congr (m.updateAbout x)
      fun e => (hxs e).trans (hys e).symm
    exact congrArg some (UInt64.toNat_inj.mp (Register.version_foldl_write version hmem r))

private theorem converges_iff_noTie :
    m.Converges us ↔ ∀ x r, m.standing x = some r →
      Register.NoTie version r (us.filterMap (m.updateAbout x)) := by
  constructor
  · intro h x r hr
    refine (Register.foldl_write_order_iff version (m.updateAbout x) us r).mp ?_
    intro xs ys hxs hys
    have heq := h xs ys hxs hys 0 0 x
    rw [standing_processMembershipUpdates, standing_processMembershipUpdates, hr] at heq
    exact Option.some.inj heq
  · intro h xs ys hxs hys now now' x
    rw [standing_processMembershipUpdates, standing_processMembershipUpdates]
    cases hr : m.standing x with
    | none => rfl
    | some r =>
      exact congrArg some ((Register.foldl_write_order_iff version
        (m.updateAbout x) us r).mpr (h x r hr) xs ys hxs hys)

end SwimMembership

/-- Order and repetition of gossip never change an incarnation, and they change no
status exactly if no two updates of a member's highest incarnation conflict. -/
theorem gossip_converges_iff_noConflict (m : SwimMembership) (us : List NodeInfo) :
    m.IncarnationsConverge us ∧ (m.Converges us ↔ m.NoConflict us) :=
  ⟨m.incarnationsConverge us, (m.converges_iff_noTie us).trans (m.noConflict_iff_noTie us).symm⟩

def aboutPeer (status : NodeStatus) (incarnation : UInt64) : NodeInfo :=
  { id := peer, status := status, incarnation := incarnation, lastSeen := none }

/-- A suspicion and its refutation by a higher incarnation converge. -/
theorem gossip_converges_refutation : pair.Converges [aboutPeer .suspect 1, aboutPeer .alive 2] :=
  (gossip_converges_iff_noConflict pair _).2.mpr (by decide)

/-- A suspicion and an aliveness of one incarnation do not: the last one wins. -/
theorem gossip_converges_fails : ¬ ∀ (m : SwimMembership) (us : List NodeInfo),
    (∀ u ∈ us, u.id ∈ m.members) → m.Converges us := by
  intro h
  have hsame := h pair [aboutPeer .suspect 1, aboutPeer .alive 1] (by decide)
    [aboutPeer .suspect 1, aboutPeer .alive 1] [aboutPeer .alive 1, aboutPeer .suspect 1]
    (fun _ => Iff.rfl) (fun u => by simp only [List.mem_cons, or_left_comm]) 0 0 peer
  exact absurd hsame (by decide)

end Kaelix.Cluster.Membership
