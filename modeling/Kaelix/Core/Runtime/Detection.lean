import Kaelix.Core.Runtime.Affinity

/-!
# Panics in the detection of nodes

`parse_node_memory` looks for the size between the last space of a line and the last `" kB"`.  But
`" kB"` begins with a space, so the last space is not before it: wherever both are found, the
slice between them ends before it begins, and that is a panic.  Every line of the kernel's form is
such a line.

The other panic is in `parse_cpulist`, if ranges name more cores than a vector can hold.  An error
of an earlier entry ends the detection before any later one is read.
-/

namespace Kaelix.Core.Runtime

open Lib Lib.Ascii

/-! ## The memory of a node -/

/-- A line with a size in kB, as `parse_node_memory` looks for it. -/
structure MemTotalLine (line : Text) : Prop where
  node : "Node".toList <+: line
  memTotal : "MemTotal:".toList <:+: line
  kB : " kB".toList <:+: line

private theorem slice_panics {line : Text} {kbPos : Nat} (h : rfind " kB".toList line = some kbPos)
    :
    ∃ sizeStart p, rfind " ".toList line = some sizeStart ∧
      slice line (sizeStart + 1) kbPos = .error p := by
  obtain ⟨sizeStart, hle, hfind⟩ :=
    rfind_of_prefix (show " ".toList <+: " kB".toList by decide) (by decide) h
  exact ⟨sizeStart, _, hfind, if_pos (by omega)⟩

variable (overflowChecks : Bool)

private theorem parseNodeMemoryLines_cons (line : Text) (rest : List Text) :
    (MemTotalLine line ∧ ∃ p, parseNodeMemoryLines overflowChecks (line :: rest) = .error p) ∨
      ¬ MemTotalLine line ∧ parseNodeMemoryLines overflowChecks (line :: rest) =
        parseNodeMemoryLines overflowChecks rest := by
  simp only [parseNodeMemoryLines]
  by_cases hline : "Node".toList.isPrefixOf line && (rfind "MemTotal:".toList line).isSome
  · rw [if_pos hline]
    rw [Bool.and_eq_true, List.isPrefixOf_iff_prefix, rfind_isSome_iff] at hline
    cases hkb : rfind " kB".toList line with
    | none =>
      refine .inr ⟨fun h => ?_, rfl⟩
      have hsome := (rfind_isSome_iff _ _).mpr h.kB
      rw [hkb] at hsome
      cases hsome
    | some =>
      obtain ⟨sizeStart, p, hfind, hslice⟩ := slice_panics hkb
      refine .inl ⟨⟨hline.1, hline.2, (rfind_isSome_iff _ _).mp (hkb ▸ rfl)⟩, p, ?_⟩
      simp only [hfind, hslice]
      rfl
  · rw [if_neg hline]
    refine .inr ⟨fun h => hline ?_, rfl⟩
    rw [Bool.and_eq_true, List.isPrefixOf_iff_prefix, rfind_isSome_iff]
    exact ⟨h.node, h.memTotal⟩

theorem parseNodeMemory_panics_iff (meminfo : Text) :
    (∃ p, parseNodeMemory overflowChecks meminfo = .error p) ↔
      ∃ line ∈ lines meminfo, MemTotalLine line := by
  rw [parseNodeMemory]
  induction lines meminfo with
  | nil => simp [parseNodeMemoryLines]
  | cons line rest ih =>
    rcases parseNodeMemoryLines_cons overflowChecks line rest with ⟨hline, hpanic⟩ | ⟨hline, heq⟩
    · exact iff_of_true hpanic ⟨line, by simp, hline⟩
    · rw [heq, ih]
      simp [hline]

/-! ## The cores of a node -/

def rangeSize (range : Text) : Option Nat :=
  let range := trim range
  if range.isEmpty then some 0
  else
    match range.idxOf? '-' with
    | some dashPos =>
      match parse (range.take dashPos), parse (range.drop (dashPos + 1)) with
      | .ok start, .ok stop => some (stop + 1 - start)
      | _, _ => none
    | none => (parse range).toOption.map fun _ => 1

/-- The first parts of a cpulist are well formed and name more cores than a vector can hold. -/
def Oversized (used : Nat) (ranges : List Text) : Prop :=
  ∃ first sizes, first <+: ranges ∧ first.mapM rangeSize = some sizes ∧
    maxCores < used + sizes.sum

private theorem extend_spec (cores : List Nat) (start count : Nat) :
    if cores.length + count ≤ maxCores then
      ∃ cores', extend cores start count = .ok cores' ∧ cores'.length = cores.length + count
    else ∃ p, extend cores start count = .error (.panic p) := by
  split
  · next h => exact ⟨_, if_pos h, by simp⟩
  · next h => exact ⟨_, if_neg h⟩

private theorem parseRange_of_none {range : Text} (h : rangeSize range = none) (cores : List Nat) :
    ∃ e, parseRange cores range = .error (.error e) := by
  simp only [rangeSize] at h
  simp only [parseRange]
  split at h
  · cases h
  · next hne =>
      rw [if_neg hne]
      cases hdash : (trim range).idxOf? '-' with
      | none =>
        rw [hdash] at h
        cases hcpu : parse (trim range) with
        | error => simp [parseCpu, hcpu, bind, Except.bind]
        | ok => simp [hcpu, Except.toOption] at h
      | some dashPos =>
        rw [hdash] at h
        cases hstart : parse ((trim range).take dashPos) with
        | error => simp [parseCpu, hstart, bind, Except.bind]
        | ok =>
          cases hstop : parse ((trim range).drop (dashPos + 1)) with
          | error => simp [parseCpu, hstart, hstop, bind, Except.bind]
          | ok => simp [hstart, hstop] at h

private theorem parseRange_of_some {range : Text} {size : Nat} (h : rangeSize range = some size)
    {cores : List Nat} (hcores : cores.length ≤ maxCores) :
    if cores.length + size ≤ maxCores then
      ∃ cores', parseRange cores range = .ok cores' ∧ cores'.length = cores.length + size
    else ∃ p, parseRange cores range = .error (.panic p) := by
  simp only [rangeSize] at h
  simp only [parseRange]
  split at h
  · next hemp =>
      cases h
      rw [if_pos hemp, Nat.add_zero, if_pos hcores]
      exact ⟨cores, rfl, rfl⟩
  · next hne =>
      simp only [if_neg hne]
      cases hdash : (trim range).idxOf? '-' with
      | none =>
        rw [hdash] at h
        cases hcpu : parse (trim range) with
        | error => simp [hcpu, Except.toOption] at h
        | ok cpu =>
          simp only [hcpu, Except.toOption, Option.map_some, Option.some.injEq] at h
          subst h
          simpa [parseCpu, hcpu, bind, Except.bind] using extend_spec cores cpu 1
      | some dashPos =>
        rw [hdash] at h
        cases hstart : parse ((trim range).take dashPos) with
        | error => simp [hstart] at h
        | ok start =>
          cases hstop : parse ((trim range).drop (dashPos + 1)) with
          | error => simp [hstart, hstop] at h
          | ok stop =>
            simp only [hstart, hstop, Option.some.injEq] at h
            subst h
            simpa [parseCpu, hstart, hstop, bind, Except.bind] using
              extend_spec cores start (stop + 1 - start)

private theorem oversized_cons {used : Nat} (hused : used ≤ maxCores) (range : Text)
    (ranges : List Text) :
    Oversized used (range :: ranges) ↔
      ∃ size, rangeSize range = some size ∧
        (maxCores < used + size ∨ Oversized (used + size) ranges) := by
  constructor
  · rintro ⟨first, sizes, hfirst, hsizes, hlt⟩
    cases first with
    | nil =>
      cases hsizes
      simp at hlt
      omega
    | cons r first =>
      obtain ⟨rfl, hrest⟩ := List.cons_prefix_cons.mp hfirst
      simp only [List.mapM_cons, Option.bind_eq_bind, Option.pure_def,
        Option.bind_eq_some_iff] at hsizes
      obtain ⟨size, hsize, sizes', hsizes', heq⟩ := hsizes
      cases heq
      rw [List.sum_cons, ← Nat.add_assoc] at hlt
      exact ⟨size, hsize, .inr ⟨first, sizes', hrest, hsizes', hlt⟩⟩
  · rintro ⟨size, hsize, hlt | ⟨first, sizes, hfirst, hsizes, hlt⟩⟩
    · exact ⟨[range], [size], by simp, by simp [hsize], by simpa using hlt⟩
    · refine ⟨range :: first, size :: sizes, by simpa using hfirst, by simp [hsize, hsizes], ?_⟩
      rwa [List.sum_cons, ← Nat.add_assoc]

private theorem not_oversized_nil {used : Nat} (hused : used ≤ maxCores) : ¬ Oversized used [] := by
  rintro ⟨first, sizes, hfirst, hsizes, hlt⟩
  rw [List.prefix_nil.mp hfirst] at hsizes
  cases hsizes
  simp at hlt
  omega

private theorem foldlM_parseRange_panics_iff (ranges : List Text) {cores : List Nat}
    (hcores : cores.length ≤ maxCores) :
    (∃ p, ranges.foldlM parseRange cores = .error (.panic p)) ↔
      Oversized cores.length ranges := by
  induction ranges generalizing cores with
  | nil => simpa [pure, Except.pure] using not_oversized_nil hcores
  | cons range ranges ih =>
    rw [List.foldlM_cons, oversized_cons hcores]
    cases hsize : rangeSize range with
    | none =>
      obtain ⟨e, he⟩ := parseRange_of_none hsize cores
      simp [he, bind, Except.bind]
    | some =>
      have hspec := parseRange_of_some hsize hcores
      split at hspec
      · next hfits =>
          obtain ⟨cores', hok, hlen⟩ := hspec
          simp [hok, bind, Except.bind, ih (hlen ▸ hfits), hlen, Nat.not_lt.mpr hfits]
      · next hover =>
          obtain ⟨p, hp⟩ := hspec
          simp [hp, bind, Except.bind, Nat.not_le.mp hover]

private theorem parseCpulist_panics_iff (cpulist : Text) :
    (∃ p, parseCpulist cpulist = .error (.panic p)) ↔ Oversized 0 (cpulist.splitOn ',') :=
  foldlM_parseRange_panics_iff _ (Nat.zero_le _)

/-! ## The directory of nodes -/

/-- The file has a line with the memory. -/
def HasMemTotal (meminfo : File) : Prop :=
  ∃ content, meminfo = .text content ∧ ∃ line ∈ lines content, MemTotalLine line

/-- The entry is a node, and one of its files makes the code panic. -/
def Crashes (entry : NodeEntry) : Prop :=
  (nodeNumber entry.name).isSome ∧ ∃ cpulist, entry.cpulist = .text cpulist ∧
    (Oversized 0 ((trim cpulist).splitOn ',') ∨
      (parseCpulist (trim cpulist)).isOk ∧ HasMemTotal entry.meminfo)

theorem readMemory_panics_iff (meminfo : File) :
    (∃ p, readMemory overflowChecks meminfo = .error (.panic p)) ↔ HasMemTotal meminfo := by
  rw [HasMemTotal]
  cases meminfo with
  | missing | unreadable => simp [readMemory]
  | text content =>
    simp only [File.text.injEq, exists_eq_left', ← parseNodeMemory_panics_iff overflowChecks]
    cases h : parseNodeMemory overflowChecks content <;> simp [readMemory, h]

theorem readNode_panics_iff (entry : Except String NodeEntry) :
    (∃ p, readNode overflowChecks entry = .error (.panic p)) ↔
      ∃ node, entry = .ok node ∧ Crashes node := by
  cases entry with
  | error => simp [readNode]
  | ok node =>
    simp only [Except.ok.injEq, exists_eq_left', Crashes, readNode,
      ← parseCpulist_panics_iff, ← readMemory_panics_iff overflowChecks]
    cases hnumber : nodeNumber node.name with
    | none => simp
    | some =>
      cases hcpulist : node.cpulist with
      | missing | unreadable => simp
      | text cpulist =>
        cases hcores : parseCpulist (trim cpulist) with
        | error => simp [hcores, bind, Except.bind, Except.isOk, Except.toBool]
        | ok =>
          cases hmemy : readMemory overflowChecks node.meminfo <;>
            simp [hcores, bind, Except.bind, pure, Except.pure, Except.isOk, Except.toBool]

def kernelLine (i spaces n : Nat) : Text :=
  "Node ".toList ++ (toString i).toList ++ " MemTotal:".toList ++ List.replicate spaces ' ' ++
    (toString n).toList ++ " kB".toList

/-- The first line with a total is one of the kernel's form, for `n` kB. -/
def FirstMemTotal (meminfo : Text) (n : Nat) : Prop :=
  ∃ before after i spaces, lines meminfo = before ++ kernelLine i spaces n :: after ∧
    (∀ line ∈ before, ¬ "MemTotal:".toList <:+: line) ∧ n * 1024 < 2 ^ 64

variable (numCpus : Nat)

/-- The detection does not panic, and nodes have the memory that the kernel says they have. -/
def DetectsNodes (list : List (Except String NodeEntry)) : Prop :=
  (∀ p, detectNumaNodes overflowChecks numCpus (.entries list) ≠ .error (.panic p)) ∧
    ∀ nodes mapping,
      detectNumaNodes overflowChecks numCpus (.entries list) = .ok (nodes, mapping) →
      ∀ entry : NodeEntry, .ok entry ∈ list → ∀ id cpulist meminfo n,
        nodeNumber entry.name = some id → entry.cpulist = .text cpulist →
        entry.meminfo = .text meminfo → FirstMemTotal meminfo n →
        ∃ node ∈ nodes, node.id = id ∧ node.memorySize = n * 1024

private theorem memTotalLine_kernelLine (i spaces n : Nat) : MemTotalLine (kernelLine i spaces n)
    := by
  have hnode : "Node ".toList = "Node".toList ++ [' '] := by decide
  have htot : " MemTotal:".toList = [' '] ++ "MemTotal:".toList := by decide
  unfold kernelLine
  rw [hnode, htot]
  constructor
  · simp only [List.append_assoc]
    exact List.prefix_append _ _
  · refine ⟨"Node".toList ++ [' '] ++ (toString i).toList ++ [' '],
      List.replicate spaces ' ' ++ (toString n).toList ++ " kB".toList, ?_⟩
    simp only [List.append_assoc]
  · exact (List.suffix_append _ _).isInfix

theorem detectNumaNodes_entries (list : List (Except String NodeEntry)) :
    (∃ e, list.mapM (readNode overflowChecks) = .error e ∧
        detectNumaNodes overflowChecks numCpus (.entries list) = .error e) ∨
      ∃ found result, list.mapM (readNode overflowChecks) = .ok found ∧
        detectNumaNodes overflowChecks numCpus (.entries list) = .ok result := by
  cases hread : list.mapM (readNode overflowChecks) with
  | error e => exact .inl ⟨e, rfl, by simp [detectNumaNodes, hread, bind, Except.bind]⟩
  | ok found =>
    refine .inr ⟨found, ?_⟩
    simp only [detectNumaNodes, hread, bind, Except.bind]
    split <;> exact ⟨_, trivial, rfl⟩

private theorem detectNumaNodes_panics_iff (list : List (Except String NodeEntry)) :
    (∃ p, detectNumaNodes overflowChecks numCpus (.entries list) = .error (.panic p)) ↔
      ∃ before node after, list = before ++ .ok node :: after ∧
        (∀ entry ∈ before, (readNode overflowChecks entry).isOk) ∧ Crashes node := by
  have hfails : (∃ p, detectNumaNodes overflowChecks numCpus (.entries list) =
      .error (.panic p)) ↔ ∃ p, FailsFirst (readNode overflowChecks) list (.panic p) := by
    simp only [← mapM_eq_error_iff]
    rcases detectNumaNodes_entries overflowChecks numCpus list with
      ⟨e, hread, hdet⟩ | ⟨found, result, hread, hdet⟩
    · rw [hread, hdet]
      simp
    · rw [hread, hdet]
      simp
  rw [hfails]
  constructor
  · rintro ⟨p, before, entry, after, hlist, hbef, hent⟩
    obtain ⟨node, rfl, hcrash⟩ := (readNode_panics_iff overflowChecks entry).mp ⟨p, hent⟩
    exact ⟨before, node, after, hlist, hbef, hcrash⟩
  · rintro ⟨before, node, after, hlist, hbef, hcrash⟩
    obtain ⟨p, hp⟩ := (readNode_panics_iff overflowChecks (.ok node)).mpr ⟨node, rfl, hcrash⟩
    exact ⟨p, before, .ok node, after, hlist, hbef, hp⟩

private theorem readNode_not_isOk {overflowChecks : Bool} {entry : NodeEntry} {id : Nat}
    {cpulist : Text} (hid : nodeNumber entry.name = some id)
    (hcpulist : entry.cpulist = .text cpulist) (hmemy : HasMemTotal entry.meminfo) :
    ¬ (readNode overflowChecks (.ok entry)).isOk := by
  obtain ⟨p, hp⟩ := (readMemory_panics_iff overflowChecks entry.meminfo).mpr hmemy
  cases hcores : parseCpulist (trim cpulist) <;>
    simp [readNode, hid, hcpulist, hcores, hp, bind, Except.bind, Except.isOk, Except.toBool]

/-- The detection does not panic and gets the memory right iff no entry crashes that it comes
to. -/
theorem detection_iff (overflowChecks : Bool) (numCpus : Nat)
    (list : List (Except String NodeEntry)) :
    DetectsNodes overflowChecks numCpus list ↔
      ∀ before node after, list = before ++ .ok node :: after →
        (∀ entry ∈ before, (readNode overflowChecks entry).isOk) → ¬ Crashes node := by
  have hpanics := detectNumaNodes_panics_iff overflowChecks numCpus list
  constructor
  · intro h before node after hlist hbef hcrash
    obtain ⟨p, hp⟩ := hpanics.mpr ⟨before, node, after, hlist, hbef, hcrash⟩
    exact h.1 p hp
  · intro h
    refine ⟨fun p hp => ?_, ?_⟩
    · obtain ⟨before, node, after, hlist, hbef, hcrash⟩ := hpanics.mp ⟨p, hp⟩
      exact h before node after hlist hbef hcrash
    · intro nodes mapping hok entry hent id cpulist meminfo n hid hcpulist hmeminfo hfirst
      -- such a line is the end of the detection, so there is no result to be wrong
      obtain ⟨before, after, i, spaces, hlines, -, -⟩ := hfirst
      have hmemy : HasMemTotal entry.meminfo :=
        ⟨meminfo, hmeminfo, kernelLine i spaces n, by simp [hlines],
          memTotalLine_kernelLine i spaces n⟩
      rcases detectNumaNodes_entries overflowChecks numCpus list with
        ⟨e, -, hdet⟩ | ⟨found, result, hread, -⟩
      · rw [hok] at hdet
        cases hdet
      · exact absurd (isOk_of_mapM_eq_ok hread _ hent) (readNode_not_isOk hid hcpulist hmemy)

def oneNode : NodeEntry :=
  { name := "node0".toList
    cpulist := .text "0\n".toList
    meminfo := .text "Node 0 MemTotal:       16384 kB\n".toList }

/-- The line of the kernel is the end of the detection. -/
theorem detection_panics :
    lines "Node 0 MemTotal:       16384 kB\n".toList = [kernelLine 0 7 16384] ∧
      detectNumaNodes true 1 (.entries [.ok oneNode]) =
        .error (.panic ⟨"begin <= end (29 <= 28) when slicing"⟩) ∧
      ¬ DetectsNodes true 1 [.ok oneNode] := by
  have hpanic : detectNumaNodes true 1 (.entries [.ok oneNode]) =
      .error (.panic ⟨"begin <= end (29 <= 28) when slicing"⟩) := by
    decide
  exact ⟨by decide, hpanic, fun h => h.1 _ hpanic⟩

end Kaelix.Core.Runtime
