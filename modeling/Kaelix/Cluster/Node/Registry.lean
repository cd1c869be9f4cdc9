import Kaelix.Lib.History
import Kaelix.Lib.SecondaryIndex
import Kaelix.Cluster.Node.Address
import Mathlib.Data.Rat.Defs

/-!
# The node registry

`NodeRegistry` of `node/mod.rs`: the registered nodes and two secondary indices, by role and by
region.

`update_node` and `unregister_node` take the old role and region of a node out of the indices.
`register_node` does not: a node that is registered again with another role stays listed under its
old one.
-/

namespace Kaelix.Cluster.Node

open Lib

inductive NodeRole where
  | leader
  | follower
  | candidate
  | learner
  | observer
  deriving DecidableEq

/-- The metadata that the registry reads.  The health score is a float, `none` for one
that is not finite. -/
structure NodeMetadata (Addr Path : Type) where
  nodeId : NodeId
  address : NodeAddress Addr Path
  role : NodeRole
  region : Option String
  healthScore : Option Rat
  lastSeen : Nat
  deriving DecidableEq

namespace NodeMetadata

variable {Addr Path : Type}

def isValid (net : NetText Addr Path) (m : NodeMetadata Addr Path) : Bool :=
  m.address.isValid net &&
    match m.healthScore with
    | some score => decide (0 ≤ score) && decide (score ≤ 1)
    | none => false

/-- `is_stale`, at the time `now`: a time in the future has not elapsed. -/
def isStale (m : NodeMetadata Addr Path) (threshold now : Nat) : Bool :=
  now - m.lastSeen > threshold

end NodeMetadata

def displayNodeId (n : NodeId) : String :=
  let hex := (Nat.toDigits 16 n.uuid.toNat).leftpad 32 '0'
  let part := fun start length => String.ofList ((hex.drop start).take length)
  "-".intercalate [part 0 8, part 8 4, part 12 4, part 16 4, part 20 12]

/-- `NodeRegistry`; times are in nanoseconds. -/
structure NodeRegistry (Addr Path : Type) where
  nodes : HashMap NodeId (NodeMetadata Addr Path)
  byRole : Index NodeRole NodeId
  byRegion : Index String NodeId
  stalenessThreshold : Nat

namespace NodeRegistry

variable {Addr Path : Type}

/-- `NodeRegistry::new`: nodes are stale after five minutes. -/
def new : NodeRegistry Addr Path :=
  { nodes := ∅
    byRole := ∅
    byRegion := ∅
    stalenessThreshold := 300 * 1000000000 }

section

variable (net : NetText Addr Path)

def registerNode (self : NodeRegistry Addr Path)
    (metadata : NodeMetadata Addr Path) : NodeRegistry Addr Path × Except Error Unit :=
  if !metadata.isValid net then (self, .error (.configuration "Invalid node metadata"))
  else
    ({ self with
        byRole := self.byRole.add metadata.role metadata.nodeId
        byRegion := self.byRegion.addKey metadata.region metadata.nodeId
        nodes := self.nodes.insert metadata.nodeId metadata }, .ok ())

variable (self : NodeRegistry Addr Path)

def unregisterNode (nodeId : NodeId) :
    NodeRegistry Addr Path × Except Error (NodeMetadata Addr Path) :=
  match self.nodes.lookup nodeId with
  | none =>
    let text := displayNodeId nodeId
    (self, .error (.membership s!"Node not found: {text}"))
  | some metadata =>
    ({ self with
        nodes := self.nodes.erase nodeId
        byRole := self.byRole.remove metadata.role nodeId
        byRegion := self.byRegion.removeKey metadata.region nodeId }, .ok metadata)

def updateNode (nodeId : NodeId)
    (metadata : NodeMetadata Addr Path) : NodeRegistry Addr Path × Except Error Unit :=
  match self.nodes.lookup nodeId with
  | some oldMetadata =>
    ({ self with
        byRole :=
          if oldMetadata.role ≠ metadata.role then
            (self.byRole.remove oldMetadata.role nodeId).add metadata.role nodeId
          else self.byRole
        byRegion :=
          if oldMetadata.region ≠ metadata.region then
            (self.byRegion.removeKey oldMetadata.region nodeId).addKey metadata.region nodeId
          else self.byRegion
        nodes := self.nodes.insert nodeId metadata }, .ok ())
  | none =>
    let text := displayNodeId nodeId
    (self, .error (.membership s!"Node not found: {text}"))

def nodesByRole (role : NodeRole) : List (NodeMetadata Addr Path) :=
  self.byRole.select self.nodes role

def nodesByRegion (region : String) : List (NodeMetadata Addr Path) :=
  self.byRegion.select self.nodes region

def staleNodeIds (now : Nat) : List NodeId :=
  self.nodes.entries.filterMap fun e =>
    if e.2.isStale self.stalenessThreshold now then some e.1 else none

def cleanupStaleNodes (now : Nat) : NodeRegistry Addr Path × List NodeId :=
  (self.staleNodeIds now).foldl
    (fun s nodeId =>
      match s.1.unregisterNode nodeId with
      | (registry, .ok _) => (registry, s.2 ++ [nodeId])
      | (registry, .error _) => (registry, s.2))
    (self, [])

/-! ## Histories -/

/-- The calls that change the registry. -/
inductive RegistryOp (Addr Path : Type) where
  | registerNode (metadata : NodeMetadata Addr Path)
  | unregisterNode (nodeId : NodeId)
  | updateNode (nodeId : NodeId) (metadata : NodeMetadata Addr Path)
  | cleanupStaleNodes (now : Nat)

def step (self : NodeRegistry Addr Path) :
    RegistryOp Addr Path → NodeRegistry Addr Path
  | .registerNode metadata => (self.registerNode net metadata).1
  | .unregisterNode nodeId => (self.unregisterNode nodeId).1
  | .updateNode nodeId metadata => (self.updateNode nodeId metadata).1
  | .cleanupStaleNodes now => (self.cleanupStaleNodes now).1

/-- The indices list exactly the registered nodes of a role or a region, each once; none
of their sets is empty or mentions a node that is not registered. -/
structure IndicesExact (r : NodeRegistry Addr Path) : Prop where
  byRole : ∀ role, (r.nodesByRole role).Perm
    (r.nodes.values.filter fun m => decide (m.role = role))
  byRegion : ∀ region, (r.nodesByRegion region).Perm
    (r.nodes.values.filter fun m => decide (m.region = some region))
  roleSets : ∀ role ids, r.byRole.lookup role = some ids →
    (∃ id, id ∈ ids) ∧ ∀ id ∈ ids, id ∈ r.nodes
  regionSets : ∀ region ids, r.byRegion.lookup region = some ids →
    (∃ id, id ∈ ids) ∧ ∀ id ∈ ids, id ∈ r.nodes

/-- A node that is registered again keeps its role, and its region if it has one. -/
def KeepsKeys (r : NodeRegistry Addr Path) : RegistryOp Addr Path → Prop
  | .registerNode metadata =>
    metadata.isValid net = true →
      ∀ old, r.nodes.lookup metadata.nodeId = some old → old.role = metadata.role ∧
        ∀ region, old.region = some region → metadata.region = some region
  | _ => True

end

/-! ## Both indices are exact -/

/-- Both indices are exact. -/
structure Indexed (r : NodeRegistry Addr Path) : Prop where
  role : r.byRole.Exact (fun m => some m.role) r.nodes
  region : r.byRegion.Exact (·.region) r.nodes

variable {r : NodeRegistry Addr Path}

theorem indexed_new : (new : NodeRegistry Addr Path).Indexed :=
  ⟨Index.exact_empty, Index.exact_empty⟩

private theorem sets_of_exact {K : Type} [DecidableEq K] {idx : Index K NodeId}
    {key : NodeMetadata Addr Path → Option K} {nodes : HashMap NodeId (NodeMetadata Addr Path)}
    (h : idx.Exact key nodes) {k : K} {ids : HashSet NodeId}
    (hids : idx.lookup k = some ids) : (∃ id, id ∈ ids) ∧ ∀ id ∈ ids, id ∈ nodes := by
  refine ⟨h.noEmpty k ids hids, fun id hid => ?_⟩
  obtain ⟨m, hm, -⟩ := (h.rel k id).mp ⟨ids, hids, hid⟩
  exact AList.lookup_isSome.mp (hm ▸ rfl)

theorem Indexed.indicesExact (h : r.Indexed) : r.IndicesExact where
  byRole role := by
    have hperm := h.role.select_perm role
    simp only [Option.some.injEq] at hperm
    exact hperm
  byRegion region := h.region.select_perm region
  roleSets _ _ hids := sets_of_exact h.role hids
  regionSets _ _ hids := sets_of_exact h.region hids

theorem indexed_unregisterNode (h : r.Indexed) (nodeId : NodeId) :
    (r.unregisterNode nodeId).1.Indexed := by
  rw [unregisterNode]
  cases hlook : r.nodes.lookup nodeId with
  | none => exact h
  | some => exact ⟨h.role.remove hlook, h.region.remove hlook⟩

private theorem indexed_updateNode (h : r.Indexed) (nodeId : NodeId)
    (metadata : NodeMetadata Addr Path) : (r.updateNode nodeId metadata).1.Indexed := by
  rw [updateNode]
  cases hlook : r.nodes.lookup nodeId with
  | none => exact h
  | some =>
    constructor
    · dsimp only
      split
      · exact h.role.replace hlook metadata
      · rename_i hsame
        exact h.role.replace_same hlook (congrArg some (not_not.mp hsame))
    · dsimp only
      split
      · exact h.region.replace hlook metadata
      · rename_i hsame
        exact h.region.replace_same hlook (not_not.mp hsame)

private theorem indexed_cleanupStaleNodes (h : r.Indexed) (now : Nat) :
    (r.cleanupStaleNodes now).1.Indexed := by
  rw [cleanupStaleNodes]
  refine (always_of_step (P := fun s : NodeRegistry Addr Path × List NodeId => s.1.Indexed)
    h fun s nodeId hs => ?_).last
  have hnext := indexed_unregisterNode hs nodeId
  cases hres : s.1.unregisterNode nodeId with
  | mk registry result =>
    rw [hres] at hnext
    cases result <;> exact hnext

/-! ## Registering again -/

variable {net : NetText Addr Path} {metadata : NodeMetadata Addr Path}

private theorem registerNode_of_valid (hvalid : metadata.isValid net = true) :
    (r.registerNode net metadata).1 =
      { r with
        byRole := r.byRole.addKey (some metadata.role) metadata.nodeId
        byRegion := r.byRegion.addKey metadata.region metadata.nodeId
        nodes := r.nodes.insert metadata.nodeId metadata } := by
  rw [registerNode, hvalid]
  rfl

private theorem indexed_registerNode (h : r.Indexed)
    (hkeeps : r.KeepsKeys net (.registerNode metadata)) :
    (r.registerNode net metadata).1.Indexed := by
  cases hvalid : metadata.isValid net with
  | false =>
    rw [registerNode, hvalid]
    exact h
  | true =>
    have hkeys := hkeeps hvalid
    rw [registerNode_of_valid hvalid]
    constructor
    · refine (h.role.add_iff metadata).mpr fun old hold k hk => ?_
      exact (congrArg some (hkeys old hold).1).symm.trans hk
    · exact (h.region.add_iff metadata).mpr fun old hold => (hkeys old hold).2

private theorem keepsKeys_of_indicesExact (h : r.Indexed)
    (hexact : (r.registerNode net metadata).1.IndicesExact) :
    r.KeepsKeys net (.registerNode metadata) := by
  intro hvalid old hold
  rw [registerNode_of_valid hvalid] at hexact
  have hnew : (r.nodes.insert metadata.nodeId metadata).lookup metadata.nodeId =
      some metadata := AList.lookup_insert _
  constructor
  · by_contra hne
    have hrel : (r.byRole.addKey (some metadata.role) metadata.nodeId).Rel old.role
        metadata.nodeId :=
      Index.rel_addKey.mpr (.inr ((h.role.rel _ _).mpr ⟨old, hold, rfl⟩))
    have hperm := hexact.byRole old.role
    rw [nodesByRole] at hperm
    refine Index.not_select_perm (fun m => some m.role) hrel hnew ?_ ?_
    · simpa using Ne.symm hne
    · simpa using hperm
  · intro region hreg
    by_contra hne
    have hrel : (r.byRegion.addKey metadata.region metadata.nodeId).Rel region metadata.nodeId :=
      Index.rel_addKey.mpr (.inr ((h.region.rel _ _).mpr ⟨old, hold, hreg⟩))
    exact Index.not_select_perm NodeMetadata.region hrel hnew hne (hexact.byRegion region)

variable {op : RegistryOp Addr Path}

private theorem indexed_step (h : r.Indexed) (hkeeps : r.KeepsKeys net op) : (r.step net op).Indexed
    := by
  cases op with
  | registerNode => exact indexed_registerNode h hkeeps
  | unregisterNode nodeId => exact indexed_unregisterNode h nodeId
  | updateNode nodeId metadata => exact indexed_updateNode h nodeId metadata
  | cleanupStaleNodes now => exact indexed_cleanupStaleNodes h now

private theorem keepsKeys_of_step (h : r.Indexed) (hexact : (r.step net op).IndicesExact) :
    r.KeepsKeys net op := by
  cases op with
  | registerNode => exact keepsKeys_of_indicesExact h hexact
  | _ => trivial

/-- The indices are exact throughout a history of a new registry iff every node that is
registered again keeps its role, and its region if it has one. -/
theorem registry_indices_exact_iff (net : NetText Addr Path) (ops : List (RegistryOp Addr Path)) :
    Always (step net) IndicesExact new ops ↔ EachStep (step net) (KeepsKeys net) new ops := by
  refine always_iff_eachStep (I := Indexed) indexed_new indexed_new.indicesExact ?_ ?_
  · intro r op h _ hexact
    exact indexed_step h (keepsKeys_of_step h hexact)
  · intro r op h _
    exact ⟨keepsKeys_of_step h, fun hkeeps => (indexed_step h hkeeps).indicesExact⟩

def loopbackNode (role : NodeRole) (region : Option String) : NodeMetadata Unit String :=
  { nodeId := ⟨1⟩
    address := .tcp ()
    role := role
    region := region
    healthScore := some 1
    lastSeen := 0 }

def registeredTwice : List (RegistryOp Unit String) :=
  [.registerNode (loopbackNode .follower (some "east")),
    .registerNode (loopbackNode .leader (some "west"))]

/-- The leader is listed among the followers, and in the region that it left. -/
theorem registry_indices_inexact :
    (registeredTwice.foldl (step NodeAddress.loopback) new).nodesByRole .follower =
        [loopbackNode .leader (some "west")] ∧
      (registeredTwice.foldl (step NodeAddress.loopback) new).nodesByRegion "east" =
        [loopbackNode .leader (some "west")] ∧
      ¬ Always (step NodeAddress.loopback) IndicesExact new registeredTwice := by
  have hrole : (registeredTwice.foldl (step NodeAddress.loopback) new).nodesByRole .follower =
      [loopbackNode .leader (some "west")] := by decide
  refine ⟨hrole, by decide, fun h => ?_⟩
  have hperm := h.last.byRole .follower
  rw [hrole] at hperm
  exact absurd hperm.length_eq (by decide)

end NodeRegistry

end Kaelix.Cluster.Node
