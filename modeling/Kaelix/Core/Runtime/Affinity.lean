import Kaelix.Lib.Ascii
import Kaelix.Lib.HashMap

/-!
# CPU affinity and NUMA topology

`runtime/affinity.rs`: the detection of the NUMA nodes from the files under
`/sys/devices/system/node`, and the placement of workers on their cores.

`numCpus` is what `num_cpus::get` returns.  Vectors can be as long as `isize::MAX` bytes allow.
The texts of files are ASCII.  The memory topology of the whole system, the distances of nodes
and the available memory are left out, as the functions below do not read them.
-/

namespace Kaelix.Core.Runtime

open Lib Lib.Ascii

inductive RuntimeError where
  | numaTopology (message : String)
  deriving DecidableEq

abbrev NodeId := Nat

/-- The cores of a worker. -/
structure CpuSet where
  cores : Finset Nat
  numaNode : Option NodeId
  deriving DecidableEq

namespace CpuSet

def fromCores (cores : List Nat) : CpuSet := { cores := cores.toFinset, numaNode := none }

def setNumaNode (s : CpuSet) (nodeId : NodeId) : CpuSet := { s with numaNode := some nodeId }

end CpuSet

/-- A memory node with its cores. -/
structure NumaNode where
  id : NodeId
  cores : List Nat
  memorySize : Nat
  deriving DecidableEq

def NumaNode.new (id : NodeId) (cores : List Nat) : NumaNode := { id, cores, memorySize := 0 }

/-- The nodes with their cores. -/
structure NumaTopology where
  nodes : List NumaNode
  cpuMapping : HashMap Nat NodeId
  numaAvailable : Bool

/-! ## Detection -/

/-- What reading a file comes to. -/
inductive File where
  | missing
  | unreadable (reason : String)
  | text (content : Text)
  deriving DecidableEq

/-- An entry of the directory of nodes, with the two files that are read in it. -/
structure NodeEntry where
  name : Text
  cpulist : File
  meminfo : File
  deriving DecidableEq

/-- What listing the directory comes to. -/
inductive NodeDir where
  | missing
  | unreadable (reason : String)
  | entries (list : List (Except String NodeEntry))

/-- The most `usize` that a vector can hold: `isize::MAX` bytes. -/
def maxCores : Nat := (2 ^ 63 - 1) / 8

def extend (cores : List Nat) (start count : Nat) : Except (Failure RuntimeError) (List Nat) :=
  if cores.length + count ≤ maxCores then .ok (cores ++ List.range' start count)
  else .error (.panic ⟨"capacity overflow"⟩)

def parseCpu (what : String) (s : Text) : Except (Failure RuntimeError) Nat :=
  match parse s with
  | .ok n => .ok n
  | .error e => .error (.error (.numaTopology s!"{what}: {e.message}"))

def parseRange (cores : List Nat) (range : Text) : Except (Failure RuntimeError) (List Nat) :=
  let range := trim range
  if range.isEmpty then .ok cores
  else
    match range.idxOf? '-' with
    | some dashPos => do
      let start ← parseCpu "Invalid CPU range start" (range.take dashPos)
      let stop ← parseCpu "Invalid CPU range end" (range.drop (dashPos + 1))
      extend cores start (stop + 1 - start)
    | none => do
      let cpu ← parseCpu "Invalid CPU ID" range
      extend cores cpu 1

/-- Ranges of cores between commas. -/
def parseCpulist (cpulist : Text) : Except (Failure RuntimeError) (List Nat) :=
  (cpulist.splitOn ',').foldlM parseRange []

/-- `NumaTopology::parse_node_memory`, over the lines that are left. -/
def parseNodeMemoryLines (overflowChecks : Bool) : List Text → Except Panic UInt64
  | [] => .ok 0
  | line :: rest =>
    if "Node".toList.isPrefixOf line && (rfind "MemTotal:".toList line).isSome then
      match rfind " kB".toList line with
      | some kbPos =>
        match rfind " ".toList line with
        | some sizeStart => do
          let size ← slice line (sizeStart + 1) kbPos
          match parse size with
          | .ok kb => mulU64 overflowChecks (UInt64.ofNat kb) 1024
          | .error _ => parseNodeMemoryLines overflowChecks rest
        | none => parseNodeMemoryLines overflowChecks rest
      | none => parseNodeMemoryLines overflowChecks rest
    else parseNodeMemoryLines overflowChecks rest

section

variable (overflowChecks : Bool)

def parseNodeMemory (meminfo : Text) : Except Panic UInt64 :=
  parseNodeMemoryLines overflowChecks (lines meminfo)

def nodeNumber (name : Text) : Option Nat :=
  if "node".toList.isPrefixOf name then (parse (name.drop 4)).toOption else none

def readMemory (meminfo : File) : Except (Failure RuntimeError) Nat :=
  match meminfo with
  | .text content =>
    match parseNodeMemory overflowChecks content with
    | .ok size => .ok size.toNat
    | .error p => .error (.panic p)
  | _ => .ok 0

/-- One round of `NumaTopology::detect_numa_nodes`: the node of an entry, if it has one. -/
def readNode (entry : Except String NodeEntry) : Except (Failure RuntimeError) (Option NumaNode) :=
  match entry with
  | .error reason => .error (.error (.numaTopology reason))
  | .ok entry =>
    match nodeNumber entry.name with
    | none => .ok none
    | some nodeId =>
      match entry.cpulist with
      | .missing => .ok none
      | .unreadable reason => .error (.error (.numaTopology reason))
      | .text cpulist => do
        let cores ← parseCpulist (trim cpulist)
        let memorySize ← readMemory overflowChecks entry.meminfo
        return some { NumaNode.new nodeId cores with memorySize }

/-- The cores of nodes, each with its node; a core that is listed again goes to the later one. -/
def mapCores (nodes : List NumaNode) : HashMap Nat NodeId :=
  nodes.foldl (fun mapping node =>
    node.cores.foldl (fun mapping core => mapping.insert core node.id) mapping) ∅

def createSingleNode (numCpus : Nat) : List NumaNode × HashMap Nat NodeId :=
  let nodes := [NumaNode.new 0 (List.range numCpus)]
  (nodes, mapCores nodes)

def detectNumaNodes (numCpus : Nat) (nodeDir : NodeDir) :
    Except (Failure RuntimeError) (List NumaNode × HashMap Nat NodeId) :=
  match nodeDir with
  | .missing => .ok (createSingleNode numCpus)
  | .unreadable reason => .error (.error (.numaTopology reason))
  | .entries list => do
    let nodes := (← list.mapM (readNode overflowChecks)).filterMap id
    if nodes.isEmpty then return createSingleNode numCpus
    return (nodes.mergeSort fun a b => a.id ≤ b.id, mapCores nodes)

end

/-! ## Placement -/

/-- The placements and the next worker. -/
structure Placing where
  placements : List CpuSet
  workerId : Nat

def Placing.place (s : Placing) (node : NumaNode) (cores : List Nat) : Placing :=
  { placements := s.placements ++ [(CpuSet.fromCores cores).setNumaNode node.id]
    workerId := s.workerId + 1 }

/-- The inner loop of `optimal_worker_placement`, over the workers of one node that are left. -/
def placeOnNode (workerCount coresPerWorker : Nat) (node : NumaNode) (s : Placing) :
    List Nat → Placing
  | [] => s
  | nodeWorker :: rest =>
    if s.workerId ≥ workerCount then s
    else
      let startIdx := nodeWorker * coresPerWorker
      let endIdx := min (startIdx + coresPerWorker) node.cores.length
      if startIdx < node.cores.length then
        placeOnNode workerCount coresPerWorker node
          (s.place node ((node.cores.take endIdx).drop startIdx)) rest
      else placeOnNode workerCount coresPerWorker node s rest

def placeNode (workerCount workersPerNode : Nat) (s : Placing) (node : NumaNode) : Placing :=
  let coresPerWorker := max 1 (node.cores.length / workersPerNode)
  placeOnNode workerCount coresPerWorker node s (List.range workersPerNode)

def fillUp (nodes : List NumaNode) (s : Placing) : Placing :=
  match nodes[s.workerId % nodes.length]? with
  | some node =>
    match node.cores[s.workerId % node.cores.length]? with
    | some core => s.place node [core]
    | none => { s with workerId := s.workerId + 1 }
  | none => s

namespace NumaTopology

def fallbackPlacement (numCpus workerCount : Nat) : Except Panic (List CpuSet) :=
  if workerCount = 0 then .error ⟨"attempt to divide by zero"⟩
  else
    let coresPerWorker := max 1 (numCpus / workerCount)
    .ok ((List.range workerCount).map fun workerId =>
      let startCore := workerId * coresPerWorker % numCpus
      let endCore := min (startCore + coresPerWorker) numCpus
      CpuSet.fromCores (List.range' startCore (endCore - startCore)))

/-- Workers spread over the nodes. -/
def numaPlacement (nodes : List NumaNode) (workerCount : Nat) : List CpuSet :=
  let workersPerNode := max 1 (workerCount / nodes.length)
  let s := nodes.foldl (placeNode workerCount workersPerNode) { placements := [], workerId := 0 }
  -- `while worker_id < worker_count`, each round of which counts one worker
  ((fillUp nodes)^[workerCount - s.workerId] s).placements

/-- The most `CpuSet`s, of 64 bytes each, that a vector can hold: `isize::MAX` bytes. -/
def maxPlacements : Nat := (2 ^ 63 - 1) / 64

/-- `Vec::with_capacity` comes first, and panics before either path is taken. -/
def optimalWorkerPlacement (self : NumaTopology) (numCpus workerCount : Nat) :
    Except Panic (List CpuSet) :=
  if maxPlacements < workerCount then .error ⟨"capacity overflow"⟩
  else if !self.numaAvailable || self.nodes.isEmpty then fallbackPlacement numCpus workerCount
  else .ok (numaPlacement self.nodes workerCount)

end NumaTopology

end Kaelix.Core.Runtime
