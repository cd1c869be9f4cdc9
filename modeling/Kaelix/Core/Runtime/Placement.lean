import Kaelix.Core.Runtime.Affinity

/-!
# The placement of workers

On the NUMA path `optimal_worker_placement` first gives each node its share of the workers, but
not more than it has cores.  The workers that are left take the nodes in turn.
-/

namespace Kaelix.Core.Runtime

open Lib

/-- The set has cores, and they belong to the node that it is tagged with. -/
structure OnItsNode (nodes : List NumaNode) (set : CpuSet) : Prop where
  nonempty : set.cores.Nonempty
  node : ∃ node ∈ nodes, set.numaNode = some node.id ∧ ∀ core ∈ set.cores, core ∈ node.cores

/-- There are NUMA nodes to place workers on. -/
def NumaTopology.OnNuma (topology : NumaTopology) : Prop :=
  topology.numaAvailable = true ∧ topology.nodes ≠ []

/-- Every worker gets cores, on the NUMA path those of one node. -/
def EveryWorkerPlaced (topology : NumaTopology) (numCpus workerCount : Nat) : Prop :=
  ∃ sets, topology.optimalWorkerPlacement numCpus workerCount = .ok sets ∧
    sets.length = workerCount ∧ (∀ set ∈ sets, set.cores.Nonempty) ∧
    (topology.OnNuma → ∀ set ∈ sets, OnItsNode topology.nodes set)

/-- The workers that get their set in the first round: the share of each node, but not more
than it has cores. -/
def firstPlaced (nodes : List NumaNode) (workerCount : Nat) : Nat :=
  let workersPerNode := max 1 (workerCount / nodes.length)
  min workerCount (nodes.map fun node => min workersPerNode node.cores.length).sum

def coresInTurn (nodes : List NumaNode) (workerId : Nat) : List Nat :=
  (nodes[workerId % nodes.length]?.map NumaNode.cores).getD []

/-! ## The share of a node -/

/-- The workers so far are placed, each on its node. -/
structure Placing.Valid (nodes : List NumaNode) (workerCount : Nat) (s : Placing) : Prop where
  count : s.placements.length = s.workerId
  bound : s.workerId ≤ workerCount
  onItsNode : ∀ set ∈ s.placements, OnItsNode nodes set

variable {nodes : List NumaNode} {workerCount : Nat} {s : Placing}

variable {node : NumaNode} {cores : List Nat}

private theorem onItsNode_of_cores (hnode : node ∈ nodes) (hne : cores ≠ [])
    (hsub : ∀ core ∈ cores, core ∈ node.cores) :
    OnItsNode nodes ((CpuSet.fromCores cores).setNumaNode node.id) where
  nonempty := by simpa [CpuSet.fromCores, CpuSet.setNumaNode] using hne
  node := ⟨node, hnode, rfl, by simpa [CpuSet.fromCores, CpuSet.setNumaNode] using hsub⟩

@[simp] theorem Placing.workerId_place (s : Placing) (node : NumaNode) (cores : List Nat) :
    (s.place node cores).workerId = s.workerId + 1 := rfl

@[simp] theorem Placing.length_place (s : Placing) (node : NumaNode) (cores : List Nat) :
    (s.place node cores).placements.length = s.placements.length + 1 := by
  simp [Placing.place]

theorem onItsNode_place (h : ∀ set ∈ s.placements, OnItsNode nodes set) (hnode : node ∈ nodes)
    (hne : cores ≠ []) (hsub : ∀ core ∈ cores, core ∈ node.cores) :
    ∀ set ∈ (s.place node cores).placements, OnItsNode nodes set := by
  intro set hset
  rcases List.mem_append.mp hset with hset | hset
  · exact h set hset
  · rw [List.mem_singleton.mp hset]
    exact onItsNode_of_cores hnode hne hsub

theorem Placing.Valid.place (h : s.Valid nodes workerCount) (hlt : s.workerId < workerCount)
    (hnode : node ∈ nodes) (hne : cores ≠ []) (hsub : ∀ core ∈ cores, core ∈ node.cores) :
    (s.place node cores).Valid nodes workerCount where
  count := by simp [h.count]
  bound := hlt
  onItsNode := onItsNode_place h.onItsNode hnode hne hsub

theorem Placing.Valid.placeOnNode (h : s.Valid nodes workerCount) (hnode : node ∈ nodes)
    {coresPerWorker : Nat} (hcores : 0 < coresPerWorker) (nodeWorkers : List Nat) :
    (placeOnNode workerCount coresPerWorker node s nodeWorkers).Valid nodes workerCount ∧
      (Runtime.placeOnNode workerCount coresPerWorker node s nodeWorkers).workerId =
        min workerCount (s.workerId +
          nodeWorkers.countP fun nodeWorker =>
            nodeWorker * coresPerWorker < node.cores.length) := by
  induction nodeWorkers generalizing s with
  | nil => exact ⟨h, by simpa [Runtime.placeOnNode] using h.bound⟩
  | cons nodeWorker rest ih =>
    simp only [Runtime.placeOnNode, List.countP_cons, decide_eq_true_eq]
    by_cases hfull : s.workerId ≥ workerCount
    · have := h.bound
      rw [if_pos hfull]
      exact ⟨h, by omega⟩
    · rw [if_neg hfull]
      by_cases hstart : nodeWorker * coresPerWorker < node.cores.length
      · rw [if_pos hstart, if_pos hstart]
        have hne : (node.cores.take (min (nodeWorker * coresPerWorker + coresPerWorker)
            node.cores.length)).drop (nodeWorker * coresPerWorker) ≠ [] := by
          rw [ne_eq, List.drop_eq_nil_iff, List.length_take]
          omega
        have hpl := h.place (Nat.not_le.mp hfull) hnode hne fun core hcore =>
          List.mem_of_mem_take (List.mem_of_mem_drop hcore)
        obtain ⟨hvalid, hid⟩ := ih hpl
        refine ⟨hvalid, ?_⟩
        rw [hid, Placing.workerId_place]
        omega
      · rw [if_neg hstart, if_neg hstart]
        exact ih h

private theorem countP_range_lt (n m : Nat) : (List.range n).countP (· < m) = min n m := by
  induction n with
  | zero => simp
  | succ n ih =>
    rw [List.range_succ, List.countP_append, ih, List.countP_singleton]
    by_cases h : n < m
    · simp [h]
      omega
    · simp [h]
      omega

private theorem share_start_iff {workersPerNode nodeWorker : Nat}
    (hworker : nodeWorker < workersPerNode)
    (length : Nat) :
    nodeWorker * max 1 (length / workersPerNode) < length ↔ nodeWorker < length := by
  by_cases hfew : length < workersPerNode
  · simp [Nat.div_eq_of_lt hfew]
  · have hshare : 1 ≤ length / workersPerNode :=
      Nat.div_pos (Nat.not_lt.mp hfew) (Nat.zero_lt_of_lt hworker)
    rw [Nat.max_eq_right hshare]
    refine iff_of_true ?_ (by omega)
    calc nodeWorker * (length / workersPerNode)
        < workersPerNode * (length / workersPerNode) := Nat.mul_lt_mul_of_pos_right hworker hshare
      _ ≤ length := Nat.mul_div_le length workersPerNode

private theorem share_eq (workersPerNode length : Nat) :
    (List.range workersPerNode).countP (fun nodeWorker =>
      nodeWorker * max 1 (length / workersPerNode) < length) = min workersPerNode length := by
  rw [← countP_range_lt]
  apply List.countP_congr
  intro nodeWorker hmem
  simpa using share_start_iff (List.mem_range.mp hmem) length

theorem Placing.Valid.placeNode (h : s.Valid nodes workerCount)
    (hnode : node ∈ nodes) (workersPerNode : Nat) :
    (placeNode workerCount workersPerNode s node).Valid nodes workerCount ∧
      (Runtime.placeNode workerCount workersPerNode s node).workerId =
        min workerCount (s.workerId + min workersPerNode node.cores.length) := by
  obtain ⟨hvalid, hid⟩ := h.placeOnNode hnode
    (show 0 < max 1 (node.cores.length / workersPerNode) by omega) (List.range workersPerNode)
  rw [share_eq] at hid
  exact ⟨hvalid, hid⟩

theorem Placing.Valid.foldl_placeNode (h : s.Valid nodes workerCount) {part : List NumaNode}
    (hpart : ∀ node ∈ part, node ∈ nodes) (workersPerNode : Nat) :
    (part.foldl (Runtime.placeNode workerCount workersPerNode) s).Valid nodes workerCount ∧
      (part.foldl (Runtime.placeNode workerCount workersPerNode) s).workerId =
        min workerCount (s.workerId +
          (part.map fun node => min workersPerNode node.cores.length).sum) := by
  induction part generalizing s with
  | nil => exact ⟨h, by simpa using h.bound⟩
  | cons node rest ih =>
    obtain ⟨hvalid, hid⟩ := h.placeNode (hpart node (by simp)) workersPerNode
    obtain ⟨hvalid', hid'⟩ := ih hvalid fun n hn => hpart n (by simp [hn])
    refine ⟨hvalid', ?_⟩
    rw [List.foldl_cons, hid', hid, List.map_cons, List.sum_cons]
    omega

/-! ## The turns that are left -/

private theorem fillUp_of_nil (hne : nodes ≠ []) (h : coresInTurn nodes s.workerId = []) :
    fillUp nodes s = { s with workerId := s.workerId + 1 } := by
  have hturn : s.workerId % nodes.length < nodes.length :=
    Nat.mod_lt _ (List.length_pos_of_ne_nil hne)
  simp only [coresInTurn, List.getElem?_eq_getElem hturn, Option.map_some, Option.getD_some] at h
  simp [fillUp, List.getElem?_eq_getElem hturn, h]

private theorem fillUp_of_ne_nil (hne : nodes ≠ []) (h : coresInTurn nodes s.workerId ≠ []) :
    ∃ node ∈ nodes, ∃ core ∈ node.cores, fillUp nodes s = s.place node [core] := by
  have hturn : s.workerId % nodes.length < nodes.length :=
    Nat.mod_lt _ (List.length_pos_of_ne_nil hne)
  simp only [coresInTurn, List.getElem?_eq_getElem hturn, Option.map_some, Option.getD_some] at h
  have hcore : s.workerId % nodes[s.workerId % nodes.length].cores.length <
      nodes[s.workerId % nodes.length].cores.length :=
    Nat.mod_lt _ (List.length_pos_of_ne_nil h)
  refine ⟨_, List.getElem_mem hturn, _, List.getElem_mem hcore, ?_⟩
  simp [fillUp, List.getElem?_eq_getElem hturn, List.getElem?_eq_getElem hcore]

private theorem iterate_fillUp (hne : nodes ≠ []) (turns : Nat)
    (h : ∀ set ∈ s.placements, OnItsNode nodes set) :
    ((fillUp nodes)^[turns] s).placements.length ≤ s.placements.length + turns ∧
      (((fillUp nodes)^[turns] s).placements.length = s.placements.length + turns ↔
        ∀ workerId, s.workerId ≤ workerId → workerId < s.workerId + turns →
          coresInTurn nodes workerId ≠ []) ∧
      ∀ set ∈ ((fillUp nodes)^[turns] s).placements, OnItsNode nodes set := by
  induction turns generalizing s with
  | zero => exact ⟨by simp, by simp; omega, h⟩
  | succ turns ih =>
    rw [Function.iterate_succ_apply]
    by_cases hnil : coresInTurn nodes s.workerId = []
    · obtain ⟨hle, -, hgood⟩ := ih (s := { s with workerId := s.workerId + 1 }) h
      rw [fillUp_of_nil hne hnil]
      dsimp only at hle
      refine ⟨by omega, iff_of_false (by omega) fun hall => ?_, hgood⟩
      exact hall s.workerId le_rfl (by omega) hnil
    · obtain ⟨node, hnode, core, hcore, hfill⟩ := fillUp_of_ne_nil hne hnil
      have hpl : ∀ set ∈ (s.place node [core]).placements, OnItsNode nodes set :=
        onItsNode_place h hnode (by simp) (by simpa using hcore)
      obtain ⟨hle, hiff, hgood⟩ := ih hpl
      rw [Placing.length_place] at hle hiff
      rw [Placing.workerId_place] at hiff
      rw [hfill]
      refine ⟨by omega, ?_, hgood⟩
      rw [show s.placements.length + (turns + 1) = s.placements.length + 1 + turns by omega, hiff]
      constructor
      · intro hrest workerId hfrom hto
        by_cases hfirst : workerId = s.workerId
        · rwa [hfirst]
        · exact hrest workerId (by omega) (by omega)
      · intro hall workerId hfrom hto
        exact hall workerId (by omega) (by omega)

/-! ## All workers -/

private theorem numaPlacement_spec (hne : nodes ≠ []) (workerCount : Nat) :
    ((NumaTopology.numaPlacement nodes workerCount).length = workerCount ↔
        ∀ workerId, firstPlaced nodes workerCount ≤ workerId → workerId < workerCount →
          coresInTurn nodes workerId ≠ []) ∧
      ∀ set ∈ NumaTopology.numaPlacement nodes workerCount, OnItsNode nodes set := by
  have hstart : Placing.Valid nodes workerCount { placements := [], workerId := 0 } :=
    ⟨rfl, Nat.zero_le _, by simp⟩
  obtain ⟨hvalid, hid⟩ := hstart.foldl_placeNode (fun _ h => h)
    (max 1 (workerCount / nodes.length))
  rw [Nat.zero_add, ← firstPlaced] at hid
  obtain ⟨-, hiff, hgood⟩ := iterate_fillUp hne (workerCount - firstPlaced nodes workerCount)
    hvalid.onItsNode
  have hbound := hvalid.bound
  rw [hvalid.count, hid, Nat.add_sub_of_le (hid ▸ hbound)] at hiff
  rw [NumaTopology.numaPlacement, hid]
  exact ⟨hiff, hgood⟩

private theorem fallbackPlacement_spec {numCpus : Nat} (hcpus : 1 ≤ numCpus)
    (hworkers : 1 ≤ workerCount) :
    ∃ sets, NumaTopology.fallbackPlacement numCpus workerCount = .ok sets ∧
      sets.length = workerCount ∧ ∀ set ∈ sets, set.cores.Nonempty := by
  refine ⟨_, if_neg (by omega), by simp, fun set hset => ?_⟩
  obtain ⟨workerId, -, rfl⟩ := List.mem_map.mp hset
  have hstart := Nat.mod_lt (workerId * max 1 (numCpus / workerCount)) hcpus
  simp only [CpuSet.fromCores, List.toFinset_nonempty_iff, ne_eq, List.range'_eq_nil_iff]
  omega

private theorem not_everyWorkerPlaced (topology : NumaTopology) (numCpus : Nat)
    (h : NumaTopology.maxPlacements < workerCount) :
    ¬ EveryWorkerPlaced topology numCpus workerCount := by
  rintro ⟨sets, hsets, -⟩
  rw [NumaTopology.optimalWorkerPlacement, if_pos h] at hsets
  cases hsets

/-- Every worker gets cores iff the vector can hold their sets and, on the NUMA path, none of
the turns that are left after the first round comes to a node without cores. -/
theorem placement_iff (topology : NumaTopology) (numCpus workerCount : Nat) (hcpus : 1 ≤ numCpus)
    (hworkers : 1 ≤ workerCount) :
    EveryWorkerPlaced topology numCpus workerCount ↔
      workerCount ≤ NumaTopology.maxPlacements ∧
        (topology.OnNuma → ∀ workerId, firstPlaced topology.nodes workerCount ≤ workerId →
          workerId < workerCount → coresInTurn topology.nodes workerId ≠ []) := by
  by_cases hcap : NumaTopology.maxPlacements < workerCount
  · exact iff_of_false (not_everyWorkerPlaced topology numCpus hcap)
      fun h => absurd h.1 (Nat.not_le.mpr hcap)
  rw [and_iff_right (Nat.not_lt.mp hcap)]
  by_cases hnuma : topology.OnNuma
  · obtain ⟨hiff, hgood⟩ := numaPlacement_spec hnuma.2 workerCount
    have hpath : topology.optimalWorkerPlacement numCpus workerCount =
        .ok (NumaTopology.numaPlacement topology.nodes workerCount) := by
      simp [NumaTopology.optimalWorkerPlacement, hcap, hnuma.1, hnuma.2]
    simp only [EveryWorkerPlaced, hpath, hnuma, true_imp_iff, ← hiff]
    constructor
    · rintro ⟨sets, hsets, hlen, -⟩
      cases hsets
      exact hlen
    · intro hlen
      exact ⟨_, rfl, hlen, fun set hset => (hgood set hset).nonempty, hgood⟩
  · obtain ⟨sets, hsets, hlen, hnonempty⟩ := fallbackPlacement_spec hcpus hworkers
    have hpath : topology.optimalWorkerPlacement numCpus workerCount = .ok sets := by
      rw [NumaTopology.optimalWorkerPlacement, if_neg hcap, if_pos, hsets]
      by_contra hnot
      simp at hnot
      exact hnuma hnot
    simp only [EveryWorkerPlaced, hpath, hnuma, false_imp_iff, iff_true, and_true]
    exact ⟨sets, rfl, hlen, hnonempty⟩

/-- Two nodes, the second with a single core. -/
def unevenTopology : NumaTopology :=
  { nodes := [⟨0, [0, 1], 0⟩, ⟨1, [2], 0⟩]
    cpuMapping := mapCores [⟨0, [0, 1], 0⟩, ⟨1, [2], 0⟩]
    numaAvailable := true }

/-- Three of five workers get their sets in the first round, the others in turn. -/
theorem placement_fiveWorkers : 1 ≤ 3 ∧ 1 ≤ 5 ∧ EveryWorkerPlaced unevenTopology 3 5 := by
  refine ⟨by decide, by decide,
    (placement_iff unevenTopology 3 5 (by decide) (by decide)).mpr ⟨by decide, ?_⟩⟩
  intro _ workerId hfrom hto
  have hfirst : firstPlaced unevenTopology.nodes 5 = 3 := by decide
  obtain rfl | rfl : workerId = 3 ∨ workerId = 4 := by omega
  · decide
  · decide

private theorem detectNumaNodes_of_sorted {overflowChecks : Bool} {numCpus : Nat}
    {list : List (Except String NodeEntry)} {nodes : List NumaNode}
    (hread : list.mapM (readNode overflowChecks) = .ok (nodes.map some)) (hne : nodes ≠ [])
    (hsorted : nodes.Pairwise fun a b => a.id ≤ b.id) :
    detectNumaNodes overflowChecks numCpus (.entries list) = .ok (nodes, mapCores nodes) := by
  have hnodes : (nodes.map some).filterMap id = nodes := by simp [List.filterMap_map]
  have hsort : nodes.mergeSort (fun a b => a.id ≤ b.id) = nodes :=
    List.mergeSort_of_pairwise (by simpa using hsorted)
  simp only [detectNumaNodes, hread, bind, Except.bind, hnodes, hsort, pure, Except.pure]
  simp [hne]

def memoryOnlyNode : NodeDir :=
  .entries
    [.ok { name := "node0".toList, cpulist := .text "0-1\n".toList, meminfo := .missing },
      .ok { name := "node1".toList, cpulist := .text "\n".toList, meminfo := .missing }]

def memoryOnlyTopology : NumaTopology :=
  { nodes := [⟨0, [0, 1], 0⟩, ⟨1, [], 0⟩]
    cpuMapping := mapCores [⟨0, [0, 1], 0⟩, ⟨1, [], 0⟩]
    numaAvailable := true }

/-- The second of two workers gets no cores. -/
theorem worker_without_cores :
    detectNumaNodes true 2 memoryOnlyNode =
        .ok (memoryOnlyTopology.nodes, memoryOnlyTopology.cpuMapping) ∧
      memoryOnlyTopology.optimalWorkerPlacement 2 2 =
        .ok [{ cores := {0, 1}, numaNode := some 0 }] ∧
      ¬ EveryWorkerPlaced memoryOnlyTopology 2 2 := by
  have hplacement : memoryOnlyTopology.optimalWorkerPlacement 2 2 =
      .ok [{ cores := {0, 1}, numaNode := some 0 }] := by decide
  refine ⟨?_, hplacement, ?_⟩
  · apply detectNumaNodes_of_sorted <;> decide
  · rintro ⟨sets, hsets, hlen, -⟩
    rw [hplacement] at hsets
    cases hsets
    cases hlen

end Kaelix.Core.Runtime
