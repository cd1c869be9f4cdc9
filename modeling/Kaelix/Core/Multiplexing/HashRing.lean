import Kaelix.Lib.HashMap
import Kaelix.Lib.OrderedMap
import Kaelix.Lib.Ring
import Kaelix.Lib.Text
import Std.Data.String.ToNat

/-!
# The consistent hash ring

`ConsistentHashRing` of `multiplexing/router.rs`.  Every node has 150 points on the ring, the
hashes of its labels, and a key belongs to the node of the next point.  The hash function is
arbitrary; its values are positions.
-/

namespace Kaelix.Core.Multiplexing

open Lib Lib.Ring
open Std (TreeMap)

/-- The positions and the nodes there. -/
structure ConsistentHashRing where
  ring : TreeMap Nat UInt64
  nodes : HashMap UInt64 (List Nat)
  virtualNodes : Nat

def virtualLabel (node : UInt64) (i : Nat) : String := s!"{node}:{i}"

variable {key : String} {N : Set UInt64}

namespace ConsistentHashRing

def new : ConsistentHashRing := { ring := ∅, nodes := ∅, virtualNodes := 150 }

variable (hash : String → UInt64)

/-- One round of the loop of `add_node`: the ring, and the hashes so far. -/
def addPoint (node : UInt64) (points : TreeMap Nat UInt64 × List Nat) (i : Nat) :
    TreeMap Nat UInt64 × List Nat :=
  let position := (hash (virtualLabel node i)).toNat
  (points.1.insert position node, points.2 ++ [position])

section

variable (r : ConsistentHashRing)

variable (node : UInt64)

def addNode : ConsistentHashRing :=
  let points := (List.range r.virtualNodes).foldl (addPoint hash node) (r.ring, [])
  { r with ring := points.1, nodes := r.nodes.insert node points.2 }

def removeNode : ConsistentHashRing :=
  match r.nodes.lookup node with
  | some hashes =>
    { r with
      ring := hashes.foldl (fun ring position => ring.erase position) r.ring
      nodes := r.nodes.erase node }
  | none => r

/-- The node at the next position. -/
def getNode (key : String) : Option UInt64 :=
  if r.ring.isEmpty then none else findNext r.ring.toList (hash key).toNat

/-- The 150 positions of a node. -/
def positions : List Nat :=
  (List.range 150).map fun i => (hash (virtualLabel node i)).toNat

theorem positions_ne_nil : positions hash node ≠ [] := by
  simp [positions]

theorem pairwise_toList : r.ring.toList.Pairwise fun e e' => e.1 < e'.1 :=
  TreeMap.ordered_keys_toList.imp fun hlt => Nat.compare_eq_lt.mp hlt

end

/-! ### Points -/

theorem foldl_addPoint (node : UInt64) (is : List Nat) (ring : TreeMap Nat UInt64)
    (hashes : List Nat) :
    (is.foldl (addPoint hash node) (ring, hashes)).2 =
        hashes ++ is.map (fun i => (hash (virtualLabel node i)).toNat) ∧
      ∀ p : Nat, (is.foldl (addPoint hash node) (ring, hashes)).1[p]? =
        if p ∈ is.map fun i => (hash (virtualLabel node i)).toNat then some node
        else ring[p]? := by
  induction is generalizing ring hashes with
  | nil => simp
  | cons i is ih =>
    obtain ⟨hhashes, hring⟩ := ih
      (ring.insert (hash (virtualLabel node i)).toNat node)
      (hashes ++ [(hash (virtualLabel node i)).toNat])
    rw [List.foldl_cons]
    refine ⟨?_, fun p => ?_⟩
    · rw [addPoint, hhashes, List.append_assoc, List.map_cons]
      rfl
    · rw [addPoint, hring, TreeMap.getElem?_insert]
      by_cases hp : p = (hash (virtualLabel node i)).toNat
      · simp [hp]
      · simp [hp, Ne.symm hp]

theorem getElem?_foldl_erase (hashes : List Nat) (ring : TreeMap Nat UInt64) (p : Nat) :
    (hashes.foldl (fun ring position => ring.erase position) ring)[p]? =
      if p ∈ hashes then none else ring[p]? := by
  induction hashes generalizing ring with
  | nil => simp
  | cons position hashes ih =>
    rw [List.foldl_cons, ih, TreeMap.getElem?_erase]
    by_cases hp : p = position
    · simp [hp]
    · simp [hp, Ne.symm hp]

/-- The points belong to the nodes in `N`, and each of these knows its positions. -/
structure Members (r : ConsistentHashRing) (N : Set UInt64) : Prop where
  virtualNodes : r.virtualNodes = 150
  nodes : ∀ node hashes,
    r.nodes.lookup node = some hashes ↔ node ∈ N ∧ hashes = positions hash node
  ring : ∀ (p : Nat) node, r.ring[p]? = some node → node ∈ N ∧ p ∈ positions hash node

section

variable {hash} {r : ConsistentHashRing} {N : Set UInt64}

theorem getElem?_addNode (h : r.virtualNodes = 150) (node : UInt64) (p : Nat) :
    (r.addNode hash node).ring[p]? =
      if p ∈ positions hash node then some node else r.ring[p]? := by
  have hring := (foldl_addPoint hash node (List.range r.virtualNodes) r.ring []).2 p
  rw [h] at hring
  rw [addNode, h]
  exact hring

variable (h : Members hash r N)
include h

variable (node : UInt64)

theorem Members.addNode :
    Members hash (r.addNode hash node) (insert node N) where
  virtualNodes := h.virtualNodes
  nodes := by
    intro other hashes
    have hnodes : (r.addNode hash node).nodes =
        r.nodes.insert node (positions hash node) := by
      have hhashes := (foldl_addPoint hash node (List.range r.virtualNodes) r.ring []).1
      rw [h.virtualNodes, List.nil_append] at hhashes
      rw [ConsistentHashRing.addNode, h.virtualNodes]
      exact congrArg (AList.insert node · r.nodes) hhashes
    rw [hnodes, HashMap.lookup_insert_eq]
    by_cases hoth : other = node
    · subst hoth
      rw [if_pos rfl, Option.some.injEq]
      exact ⟨fun heq => ⟨Set.mem_insert _ _, heq.symm⟩, fun hmem => hmem.2.symm⟩
    · rw [if_neg hoth, h.nodes]
      exact and_congr_left' (Set.mem_insert_iff.trans (or_iff_right hoth)).symm
  ring := by
    intro p other hp
    rw [getElem?_addNode h.virtualNodes] at hp
    split at hp
    · next hmem =>
      obtain rfl := Option.some.inj hp
      exact ⟨Set.mem_insert _ _, hmem⟩
    · obtain ⟨hN, hpos⟩ := h.ring p other hp
      exact ⟨Set.mem_insert_of_mem _ hN, hpos⟩

theorem Members.lookup_eq_none_iff : r.nodes.lookup node = none ↔ node ∉ N := by
  constructor
  · intro hnone hN
    have hsome := (h.nodes node _).mpr ⟨hN, rfl⟩
    rw [hnone] at hsome
    cases hsome
  · intro hN
    cases hlk : r.nodes.lookup node with
    | none => rfl
    | some hashes => exact absurd ((h.nodes node hashes).mp hlk).1 hN

theorem Members.removeNode_of_notMem {node : UInt64} (hN : node ∉ N) : r.removeNode node = r := by
  rw [ConsistentHashRing.removeNode, (h.lookup_eq_none_iff node).mpr hN]

theorem Members.getElem?_removeNode {node : UInt64} (hN : node ∈ N) (p : Nat) :
    (r.removeNode node).ring[p]? =
      if p ∈ positions hash node then none else r.ring[p]? := by
  rw [ConsistentHashRing.removeNode, (h.nodes node _).mpr ⟨hN, rfl⟩]
  exact getElem?_foldl_erase _ _ _

theorem Members.removeNode : Members hash (r.removeNode node) (N \ {node}) := by
  by_cases hN : node ∈ N
  · have heq : (r.removeNode node).nodes = r.nodes.erase node ∧
        (r.removeNode node).virtualNodes = r.virtualNodes := by
      rw [ConsistentHashRing.removeNode, (h.nodes node _).mpr ⟨hN, rfl⟩]
      exact ⟨rfl, rfl⟩
    constructor
    · rw [heq.2, h.virtualNodes]
    · intro other hashes
      rw [heq.1, HashMap.lookup_erase_eq]
      by_cases hoth : other = node
      · subst hoth
        rw [if_pos rfl]
        exact iff_of_false (Option.some_ne_none hashes).symm fun hmem => hmem.1.2 rfl
      · rw [if_neg hoth, h.nodes]
        exact and_congr_left' ⟨fun hmem => ⟨hmem, hoth⟩, fun hmem => hmem.1⟩
    · intro p other hp
      rw [h.getElem?_removeNode hN] at hp
      split at hp
      · cases hp
      · next hpos =>
        obtain ⟨hmem, hoth⟩ := h.ring p other hp
        exact ⟨⟨hmem, fun heq => hpos (heq ▸ hoth)⟩, hoth⟩
  · rw [h.removeNode_of_notMem hN]
    have hsame : N \ {node} = N := Set.sdiff_singleton_eq_self hN
    rwa [hsame]

theorem Members.mem_of_getNode {node : UInt64} (hnode : r.getNode hash key = some node) :
    node ∈ N := by
  unfold getNode at hnode
  split at hnode
  · cases hnode
  · obtain ⟨p, -, hmem⟩ := exists_isNext_of_findNext r.pairwise_toList hnode
    exact (h.ring p node (TreeMap.mem_toList_iff_getElem?_eq_some.mp hmem)).1

end

/-! ### Without collisions -/

/-- No two nodes share a position. -/
def Apart (N : Set UInt64) : Prop :=
  ∀ a ∈ N, ∀ b ∈ N, ∀ p ∈ positions hash a, p ∈ positions hash b → a = b

/-- Every node is at all its positions. -/
structure Placed (r : ConsistentHashRing) (N : Set UInt64) : Prop extends Members hash r N where
  complete : ∀ node ∈ N, ∀ p ∈ positions hash node, r.ring[p]? = some node

section

variable {hash} {r : ConsistentHashRing} {N : Set UInt64}

theorem placed_new : Placed hash new ∅ where
  virtualNodes := rfl
  nodes := fun node hashes =>
    iff_of_false (fun h => by cases h) fun h => Set.notMem_empty node h.1
  ring := fun p node h => by
    have hnone : new.ring[p]? = none := TreeMap.getElem?_emptyc
    rw [hnone] at h
    cases h
  complete := fun node h => absurd h (Set.notMem_empty node)

theorem Placed.addNode (h : Placed hash r N) {node : UInt64}
    (hapart : Apart hash (insert node N)) : Placed hash (r.addNode hash node) (insert node N) where
  toMembers := h.toMembers.addNode node
  complete := by
    intro other hoth p hp
    rw [getElem?_addNode h.virtualNodes]
    split
    · next hpos => rw [hapart other hoth node (Set.mem_insert _ _) p hp hpos]
    · next hpos =>
      have hold : other ∈ N := by
        rcases Set.mem_insert_iff.mp hoth with rfl | hold
        · exact absurd hp hpos
        · exact hold
      exact h.complete other hold p hp

theorem Placed.removeNode (h : Placed hash r N) (hapart : Apart hash N) (node : UInt64) :
    Placed hash (r.removeNode node) (N \ {node}) where
  toMembers := h.toMembers.removeNode node
  complete := by
    rintro other ⟨hoth, hne⟩ p hp
    by_cases hN : node ∈ N
    · rw [h.getElem?_removeNode hN, if_neg]
      · exact h.complete other hoth p hp
      · intro hpos
        exact hne (hapart other hoth node hN p hp hpos)
    · rw [h.removeNode_of_notMem hN]
      exact h.complete other hoth p hp

def allPoints (hash : String → UInt64) (N : Set UInt64) : Set Nat :=
  {p | ∃ node ∈ N, p ∈ positions hash node}

/-- The node has the next position from `q` on. -/
def Belongs (hash : String → UInt64) (N : Set UInt64) (q : Nat) (node : UInt64) : Prop :=
  ∃ p, IsNext (allPoints hash N) q p ∧ node ∈ N ∧ p ∈ positions hash node

variable (h : Placed hash r N)
include h

theorem Placed.mem_toList_iff {p : Nat} {node : UInt64} :
    (p, node) ∈ r.ring.toList ↔ node ∈ N ∧ p ∈ positions hash node := by
  rw [TreeMap.mem_toList_iff_getElem?_eq_some]
  exact ⟨h.ring p node, fun hmem => h.complete node hmem.1 p hmem.2⟩

theorem Placed.points_eq : points r.ring.toList = allPoints hash N := by
  ext p
  exact exists_congr fun node => h.mem_toList_iff

theorem Placed.belongs_of_getNode {node : UInt64} (hnode : r.getNode hash key = some node) :
    Belongs hash N (hash key).toNat node := by
  unfold getNode at hnode
  split at hnode
  · cases hnode
  · obtain ⟨p, hnext, hmem⟩ := exists_isNext_of_findNext r.pairwise_toList hnode
    rw [h.points_eq] at hnext
    exact ⟨p, hnext, h.mem_toList_iff.mp hmem⟩

theorem Placed.getNode_eq_none_iff : r.getNode hash key = none ↔ N = ∅ := by
  have hemp : r.ring.isEmpty ↔ r.ring.toList = [] := by
    rw [← TreeMap.isEmpty_toList, List.isEmpty_iff]
  have hnone : r.getNode hash key = none ↔ r.ring.toList = [] := by
    unfold getNode
    split
    · next hring => exact iff_of_true rfl (hemp.mp hring)
    · exact findNext_eq_none_iff
  rw [hnone]
  constructor
  · intro hnil
    rw [Set.eq_empty_iff_forall_notMem]
    intro node hN
    obtain ⟨p, hp⟩ := List.exists_mem_of_ne_nil _ (positions_ne_nil hash node)
    have hmem := h.mem_toList_iff.mpr ⟨hN, hp⟩
    rw [hnil] at hmem
    cases hmem
  · rintro rfl
    rw [List.eq_nil_iff_forall_not_mem]
    rintro ⟨p, node⟩ hmem
    exact Set.notMem_empty node (h.mem_toList_iff.mp hmem).1

theorem Placed.getNode_eq_some_iff {node : UInt64} :
    r.getNode hash key = some node ↔ Belongs hash N (hash key).toNat node := by
  constructor
  · exact h.belongs_of_getNode
  · rintro ⟨p, hnext, hN, hp⟩
    cases hget : r.getNode hash key with
    | none =>
      rw [h.getNode_eq_none_iff.mp hget] at hN
      exact absurd hN (Set.notMem_empty node)
    | some other =>
      obtain ⟨p', hnext', hN', hp'⟩ := h.belongs_of_getNode hget
      obtain rfl := hnext.unique hnext'
      have hsame := h.complete other hN' p hp'
      rw [h.complete node hN p hp] at hsame
      exact hsame.symm

end

/-! ### Labels -/

private theorem colon_notMem_repr (n : Nat) : ':' ∉ (Nat.repr n).toList := by
  intro h
  rw [Nat.repr, String.toList_ofList] at h
  exact absurd (Nat.isDigit_of_mem_toDigits (by decide) (by decide) h) (by decide)

private theorem eq_of_virtualLabel_eq {a b : UInt64} {i j : Nat}
    (h : virtualLabel a i = virtualLabel b j) : a = b := by
  have hlabel : ∀ (node : UInt64) (i : Nat),
      Lib.split ':' (virtualLabel node i) = [Nat.repr node.toNat, Nat.repr i] := by
    intro node i
    have hjoin : virtualLabel node i = Lib.join ':' [Nat.repr node.toNat, Nat.repr i] := by
      have htext : virtualLabel node i = Nat.repr node.toNat ++ ":" ++ Nat.repr i := rfl
      apply String.toList_inj.mp
      rw [htext, Lib.join, String.toList_append, String.toList_append, String.toList_ofList]
      simp [List.intercalate]
    rw [hjoin]
    apply Lib.split_join (List.cons_ne_nil _ _)
    intro s hs
    simp only [List.mem_cons, List.not_mem_nil, or_false] at hs
    rcases hs with rfl | rfl
    · exact colon_notMem_repr _
    · exact colon_notMem_repr _
  have hsplit := congrArg (Lib.split ':') h
  rw [hlabel, hlabel] at hsplit
  exact UInt64.toNat_inj.mp (Nat.repr_inj.mp (List.cons.inj hsplit).1)

/-- Different labels of these nodes have different hashes. -/
def NoCollisions (N : Set UInt64) : Prop :=
  ∀ a ∈ N, ∀ b ∈ N, ∀ i < 150, ∀ j < 150,
    hash (virtualLabel a i) = hash (virtualLabel b j) → virtualLabel a i = virtualLabel b j

theorem NoCollisions.apart {hash : String → UInt64} (h : NoCollisions hash N) : Apart hash N := by
  intro a ha b hb p hpa hpb
  obtain ⟨i, hi, rfl⟩ := List.mem_map.mp hpa
  obtain ⟨j, hj, heq⟩ := List.mem_map.mp hpb
  apply eq_of_virtualLabel_eq
  exact h a ha b hb i (List.mem_range.mp hi) j (List.mem_range.mp hj)
    (UInt64.toNat_inj.mp heq.symm)

/-! ### Sequences of calls -/

end ConsistentHashRing

/-- The calls that change a ring. -/
inductive RingCall where
  | addNode (node : UInt64)
  | removeNode (node : UInt64)
  deriving DecidableEq

namespace ConsistentHashRing

variable (hash : String → UInt64)

def step (r : ConsistentHashRing) : RingCall → ConsistentHashRing
  | .addNode node => r.addNode hash node
  | .removeNode node => r.removeNode node

variable (calls : List RingCall)

def after : ConsistentHashRing := calls.foldl (step hash) new

def stepMembers (N : Set UInt64) : RingCall → Set UInt64
  | .addNode node => insert node N
  | .removeNode node => N \ {node}

def members : Set UInt64 := calls.foldl stepMembers ∅

def added : Set UInt64 := {node | .addNode node ∈ calls}

private theorem placed_foldl {hash : String → UInt64} {U : Set UInt64} (hapart : Apart hash U)
    {calls : List RingCall} (hcalls : ∀ node, .addNode node ∈ calls → node ∈ U)
    {r : ConsistentHashRing} (h : Placed hash r N) (hN : N ⊆ U) :
    Placed hash (calls.foldl (step hash) r) (calls.foldl stepMembers N) := by
  induction calls generalizing r N with
  | nil => exact h
  | cons call calls ih =>
    have hrest : ∀ node, .addNode node ∈ calls → node ∈ U :=
      fun node hmem => hcalls node (List.mem_cons_of_mem _ hmem)
    cases call with
    | addNode node =>
      have hnext : insert node N ⊆ U := Set.insert_subset (hcalls node List.mem_cons_self) hN
      refine ih hrest (h.addNode fun a ha b hb => ?_) hnext
      exact hapart a (hnext ha) b (hnext hb)
    | removeNode node =>
      refine ih hrest (h.removeNode (fun a ha b hb => ?_) node) (Set.sdiff_subset.trans hN)
      exact hapart a (hN ha) b (hN hb)

private theorem placed_after {hash : String → UInt64} {calls : List RingCall}
    (h : NoCollisions hash (added calls)) : Placed hash (after hash calls) (members calls) :=
  placed_foldl h.apart (fun _ hmem => hmem) placed_new (Set.empty_subset _)

section

variable {hash : String → UInt64} {r r' : ConsistentHashRing} {node : UInt64} (h : Placed hash r N)
include h

theorem Placed.getNode_addNode (h' : Placed hash r' (insert node N)) (key : String) :
    r'.getNode hash key = r.getNode hash key ∨ r'.getNode hash key = some node := by
  cases hget : r'.getNode hash key with
  | none =>
    have hemp := h'.getNode_eq_none_iff.mp hget
    exact absurd hemp (Set.insert_nonempty node N).ne_empty
  | some other =>
    obtain ⟨p, hnext, hoth, hp⟩ := h'.getNode_eq_some_iff.mp hget
    rcases Set.mem_insert_iff.mp hoth with rfl | hold
    · exact .inr rfl
    · left
      have hsub : allPoints hash N ⊆ allPoints hash (insert node N) := by
        rintro p ⟨n, hn, hpn⟩
        exact ⟨n, Set.mem_insert_of_mem _ hn, hpn⟩
      exact (h.getNode_eq_some_iff.mpr ⟨p, hnext.subset hsub ⟨other, hold, hp⟩, hold, hp⟩).symm

theorem Placed.getNode_removeNode (h' : Placed hash r' (N \ {node}))
    (hkey : r.getNode hash key ≠ some node) : r'.getNode hash key = r.getNode hash key := by
  cases hget : r.getNode hash key with
  | none =>
    apply h'.getNode_eq_none_iff.mpr
    rw [h.getNode_eq_none_iff.mp hget, Set.empty_sdiff]
  | some other =>
    obtain ⟨p, hnext, hoth, hp⟩ := h.getNode_eq_some_iff.mp hget
    have hne : other ≠ node := fun heq => hkey (heq ▸ hget)
    have hsub : allPoints hash (N \ {node}) ⊆ allPoints hash N := by
      rintro p ⟨n, hn, hpn⟩
      exact ⟨n, hn.1, hpn⟩
    exact h'.getNode_eq_some_iff.mpr
      ⟨p, hnext.subset hsub ⟨other, ⟨hoth, hne⟩, hp⟩, ⟨hoth, hne⟩, hp⟩

end

/-- Consistent hashing moves only what it must.  Where the labels of the nodes that are used do
not collide, `get_node` depends only on the set of nodes, and is a node of this set exactly
when there is one.  Adding a node changes the result for a key only to the new node, and
removing a node changes it only for the keys of this node. -/
theorem consistent_hashing_moves_little (calls : List RingCall)
    (h : NoCollisions hash (added calls)) (key : String) :
    (∀ calls', NoCollisions hash (added calls') → members calls' = members calls →
      (after hash calls').getNode hash key = (after hash calls).getNode hash key) ∧
    (∀ node, (after hash calls).getNode hash key = some node → node ∈ members calls) ∧
    (((after hash calls).getNode hash key).isSome ↔ (members calls).Nonempty) ∧
    (∀ node, NoCollisions hash (added (calls ++ [.addNode node])) →
      (after hash (calls ++ [.addNode node])).getNode hash key =
          (after hash calls).getNode hash key ∨
        (after hash (calls ++ [.addNode node])).getNode hash key = some node) ∧
    (∀ node, (after hash calls).getNode hash key ≠ some node →
      (after hash (calls ++ [.removeNode node])).getNode hash key =
        (after hash calls).getNode hash key) := by
  have hpl := placed_after h
  refine ⟨fun calls' h' hsame => ?_, fun node hnode => ?_, ?_, fun node hnode => ?_,
    fun node hnode => ?_⟩
  · have hpl' := placed_after h'
    rw [hsame] at hpl'
    ext node
    rw [hpl'.getNode_eq_some_iff, hpl.getNode_eq_some_iff]
  · obtain ⟨p, -, hmem, -⟩ := hpl.getNode_eq_some_iff.mp hnode
    exact hmem
  · rw [Option.isSome_iff_ne_none, Ne, hpl.getNode_eq_none_iff, Set.nonempty_iff_ne_empty]
  · have hnext := placed_after hnode
    have hmembers : members (calls ++ [.addNode node]) = insert node (members calls) :=
      List.foldl_concat ..
    rw [hmembers] at hnext
    exact hpl.getNode_addNode hnext key
  · have hnext : NoCollisions hash (added (calls ++ [.removeNode node])) := by
      have hadded : added (calls ++ [.removeNode node]) = added calls := by
        ext other
        simp [added]
      rwa [hadded]
    have hpl' := placed_after hnext
    have hmembers : members (calls ++ [.removeNode node]) = members calls \ {node} :=
      List.foldl_concat ..
    rw [hmembers] at hpl'
    exact hpl.getNode_removeNode hpl' hnode

def twoNodesLabels : List String :=
  [1, 2].flatMap fun node => (List.range 150).map (virtualLabel node)

def numbering (label : String) : UInt64 := UInt64.ofNat (twoNodesLabels.idxOf label)

private theorem noCollisions_numbering : NoCollisions numbering {node | node ∈ [1, 2]} := by
  have hlen : twoNodesLabels.length = 300 := by simp [twoNodesLabels]
  have hmem : ∀ a ∈ [1, 2], ∀ i < 150, virtualLabel a i ∈ twoNodesLabels := by
    intro a ha i hi
    exact List.mem_flatMap.mpr ⟨a, ha, List.mem_map_of_mem (List.mem_range.mpr hi)⟩
  have hsize : ∀ label ∈ twoNodesLabels, twoNodesLabels.idxOf label < UInt64.size := by
    intro label hlabel
    have hlt := List.idxOf_lt_length_of_mem hlabel
    rw [hlen] at hlt
    exact hlt.trans (by decide)
  intro a ha b hb i hi j hj heq
  have hla := hmem a ha i hi
  have hnat := congrArg UInt64.toNat heq
  rw [numbering, numbering, UInt64.toNat_ofNat_of_lt' (hsize _ hla),
    UInt64.toNat_ofNat_of_lt' (hsize _ (hmem b hb j hj))] at hnat
  exact (List.idxOf_inj hla).mp hnat

def churn : List RingCall := [.addNode 1, .addNode 2, .removeNode 1]

theorem consistent_hashing_moves_little_churn :
    NoCollisions numbering (added churn) ∧
      (((after numbering churn).getNode numbering "key").isSome ↔ (members churn).Nonempty) := by
  have h : NoCollisions numbering (added churn) := by
    have hadded : added churn = {node | node ∈ [1, 2]} := by
      ext node
      simp [added, churn]
    rw [hadded]
    exact noCollisions_numbering
  exact ⟨h, (consistent_hashing_moves_little numbering churn h "key").2.2.1⟩

end ConsistentHashRing

end Kaelix.Core.Multiplexing
