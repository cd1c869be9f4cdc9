import Kaelix.Cluster.Consensus.LogReplication
import Kaelix.Lib.History
import Mathlib.Data.List.TakeWhile

/-!
# Applying the committed entries of the manager

`apply_committed_entries` of the log-replication manager counts up a copy of `last_applied` and
writes it back only when all entries are done.  After an error the next call starts from the
beginning, with entries that were applied before.  It also counts past entries whose status is
not `Committed`.  `onceEach_iff` says when neither does harm.
-/

namespace Kaelix.Cluster.Raft

open Lib Std

namespace LogReplicationManager

/-- An apply function; its answer may depend on the number of entries applied before. -/
abbrev ApplyFn := Nat → RaftWalEntry → ConsensusResult Unit

/-- The index of an entry that an apply function was called with, and its answer. -/
abbrev ApplyCall := Nat × ConsensusResult Unit

/-- The loop of `apply_committed_entries`: the calls that it makes, and its result. -/
def applyLoop (logEntries : TreeMap Nat RaftWalEntry) (applyFn : ApplyFn) :
    Nat → Nat → Nat → List ApplyCall × ConsensusResult Nat
  | 0, _, appliedCount => ([], .ok appliedCount)
  | left + 1, lastApplied, appliedCount =>
    match logEntries[lastApplied + 1]? with
    | some entry =>
      if entry.commitStatus = .committed then
        match applyFn appliedCount entry with
        | .error e => ([(lastApplied + 1, .error e)], .error e)
        | .ok () =>
          let (calls, result) :=
            applyLoop logEntries applyFn left (lastApplied + 1) (appliedCount + 1)
          ((lastApplied + 1, .ok ()) :: calls, result)
      else applyLoop logEntries applyFn left (lastApplied + 1) appliedCount
    | none =>
      ([], .error (.logInconsistency s!"Missing committed entry at index {lastApplied + 1}"))

def applyCommittedEntries {Data : Type} (self : LogReplicationManager Data) (applyFn : ApplyFn) :
    LogReplicationManager Data × List ApplyCall × ConsensusResult Nat :=
  let (calls, result) := applyLoop self.logEntries applyFn
    (self.commitIndex - self.lastApplied) self.lastApplied 0
  match result with
  | .ok _ => ({ self with lastApplied := max self.lastApplied self.commitIndex }, calls, result)
  | .error _ => (self, calls, result)

/-- There is an entry with the status `Committed` at the index. -/
def CommittedAt (logEntries : TreeMap Nat RaftWalEntry) (index : Nat) : Prop :=
  ∃ entry, logEntries[index]? = some entry ∧ entry.commitStatus = .committed

/-- The entries with the status `Committed` among the next ones behind an index, up to the first
index that has no entry: those that a call comes to as long as none of them fails. -/
def offered (logEntries : TreeMap Nat RaftWalEntry) (lastApplied left : Nat) :
    List (Nat × RaftWalEntry) :=
  ((List.range' (lastApplied + 1) left).takeWhile (logEntries[·]?.isSome)).filterMap fun k =>
    (logEntries[k]?.filter (·.commitStatus = .committed)).map (k, ·)

/-- The calls that go through a list of entries up to the first error. -/
def callsOf (applyFn : ApplyFn) : Nat → List (Nat × RaftWalEntry) → List ApplyCall
  | _, [] => []
  | appliedCount, (k, entry) :: entries =>
    match applyFn appliedCount entry with
    | .error e => [(k, .error e)]
    | .ok () => (k, .ok ()) :: callsOf applyFn (appliedCount + 1) entries

section Loop

variable {logEntries : TreeMap Nat RaftWalEntry} {applyFn : ApplyFn}

theorem calls_applyLoop (left lastApplied count : Nat) :
    (applyLoop logEntries applyFn left lastApplied count).1 =
      callsOf applyFn count (offered logEntries lastApplied left) := by
  induction left generalizing lastApplied count with
  | zero => rfl
  | succ left ih =>
    rw [applyLoop, offered, List.range'_succ, List.takeWhile_cons]
    cases hent : logEntries[lastApplied + 1]? with
    | none => rfl
    | some entry =>
      by_cases hstat : entry.commitStatus = .committed
      · cases hans : applyFn count entry with
        | error => simp [hent, hstat, callsOf, hans]
        | ok => simp [hent, hstat, callsOf, hans, ih, offered]
      · simp [hent, hstat, ih, offered]

/-- The loop completes iff it finds no gap and no answer is an error. -/
theorem isOk_applyLoop_iff (left lastApplied count : Nat) :
    (applyLoop logEntries applyFn left lastApplied count).2.isOk = true ↔
      (∀ k ∈ List.range' (lastApplied + 1) left, logEntries[k]?.isSome) ∧
        ∀ i p, (offered logEntries lastApplied left)[i]? = some p →
          applyFn (count + i) p.2 = .ok () := by
  induction left generalizing lastApplied count with
  | zero => simp [applyLoop, offered, Except.isOk, Except.toBool]
  | succ left ih =>
    rw [applyLoop, offered, List.range'_succ, List.takeWhile_cons]
    cases hent : logEntries[lastApplied + 1]? with
    | none =>
      refine iff_of_false (by simp [Except.isOk, Except.toBool]) fun h => ?_
      have hsome := h.1 _ List.mem_cons_self
      rw [hent] at hsome
      cases hsome
    | some entry =>
      by_cases hstat : entry.commitStatus = .committed
      · cases hans : applyFn count entry with
        | error e =>
          refine iff_of_false (by simp [hstat, hans, Except.isOk, Except.toBool]) fun h => ?_
          have hfirst := h.2 0 (lastApplied + 1, entry) (by simp [hent, hstat])
          simp [hans] at hfirst
        | ok u =>
          simp only [hstat, hans, if_true, ih, List.forall_mem_cons, hent,
            Option.isSome_some, true_and, offered]
          refine and_congr_right fun _ => ?_
          constructor
          · intro h i p hp
            cases i with
            | zero =>
              simp [hent, hstat] at hp
              rw [← hp]
              exact hans
            | succ i =>
              rw [← Nat.add_assoc, Nat.add_right_comm]
              exact h i p (by simpa [hent, hstat] using hp)
          · intro h i p hp
            have hnext := h (i + 1) p (by simpa [hent, hstat] using hp)
            rwa [← Nat.add_assoc, Nat.add_right_comm] at hnext
      · simp only [hstat, if_false, ih, List.forall_mem_cons, hent, Option.isSome_some,
          true_and, offered]
        simp [hent, hstat]

variable {left lastApplied : Nat} {p : Nat × RaftWalEntry}

theorem mem_offered (hp : p ∈ offered logEntries lastApplied left) :
    CommittedAt logEntries p.1 := by
  obtain ⟨k, -, hk⟩ := List.mem_filterMap.mp hp
  simp only [Option.map_eq_some_iff, Option.filter_eq_some_iff, decide_eq_true_eq] at hk
  obtain ⟨entry, ⟨hent, hstat⟩, rfl⟩ := hk
  exact ⟨entry, hent, hstat⟩

theorem pairwise_offered (left lastApplied : Nat) :
    (offered logEntries lastApplied left).Pairwise (·.1 < ·.1) := by
  refine List.Pairwise.filterMap _ ?_
    (List.pairwise_lt_range' 1 Nat.one_pos |>.sublist (List.takeWhile_sublist _))
  intro k k' hlt p hp p' hp'
  obtain ⟨_, -, rfl⟩ := Option.map_eq_some_iff.mp hp
  obtain ⟨_, -, rfl⟩ := Option.map_eq_some_iff.mp hp'
  exact hlt

/-- Where there is no gap, all committed entries are offered. -/
theorem exists_offered {k : Nat}
    (hgap : ∀ k ∈ List.range' (lastApplied + 1) left, logEntries[k]?.isSome)
    (hk : k ∈ List.range' (lastApplied + 1) left) (hcomd : CommittedAt logEntries k) :
    ∃ entry, (k, entry) ∈ offered logEntries lastApplied left := by
  obtain ⟨entry, hent, hstat⟩ := hcomd
  refine ⟨entry, List.mem_filterMap.mpr ⟨k, ?_, by simp [hent, hstat]⟩⟩
  rwa [List.takeWhile_eq_self_iff.mpr hgap]

variable {count : Nat} {entries : List (Nat × RaftWalEntry)}

theorem keys_callsOf (count : Nat) (entries : List (Nat × RaftWalEntry)) :
    (callsOf applyFn count entries).map Prod.fst <+: entries.map Prod.fst := by
  induction entries generalizing count with
  | nil => exact List.prefix_refl _
  | cons p entries ih =>
    cases hans : applyFn count p.2 with
    | error => simp [callsOf, hans]
    | ok => simpa [callsOf, hans] using ih (count + 1)

theorem head_callsOf : (callsOf applyFn count entries).head? =
    entries.head?.map fun p => (p.1, applyFn count p.2) := by
  cases entries with
  | nil => rfl
  | cons p => cases hans : applyFn count p.2 <;> simp [callsOf, hans]

/-- If the first entry is refused, no call succeeds. -/
theorem ne_ok_of_mem_callsOf (hfirst : ∀ p ∈ entries.head?, applyFn count p.2 ≠ .ok ())
    {c : ApplyCall} (hc : c ∈ callsOf applyFn count entries) : c.2 ≠ .ok () := by
  cases entries with
  | nil => cases hc
  | cons p =>
    cases hans : applyFn count p.2 with
    | ok => exact absurd hans (hfirst p rfl)
    | error =>
      simp only [callsOf, hans, List.mem_singleton] at hc
      simp [hc]

theorem mem_callsOf (hall : ∀ i p, entries[i]? = some p → applyFn (count + i) p.2 = .ok ())
    (hp : p ∈ entries) : (p.1, .ok ()) ∈ callsOf applyFn count entries := by
  induction entries generalizing count with
  | nil => cases hp
  | cons first entries ih =>
    have hans : applyFn count first.2 = .ok () := hall 0 first rfl
    simp only [callsOf, hans, List.mem_cons]
    cases hp with
    | head => exact .inl rfl
    | tail _ hp =>
      refine .inr (ih (fun i p hi => ?_) hp)
      rw [Nat.add_assoc, Nat.add_comm 1]
      exact hall (i + 1) p hi

end Loop

section Inputs

variable {Data : Type} (self : LogReplicationManager Data)

/-- Every index up to the commit index has an entry, and the function accepts all those with the
status `Committed`, one after the other. -/
def GetsThrough (applyFn : ApplyFn) : Prop :=
  (∀ k ∈ List.range' 1 self.commitIndex, self.logEntries[k]?.isSome) ∧
    ∀ i p, (offered self.logEntries 0 self.commitIndex)[i]? = some p → applyFn i p.2 = .ok ()

/-- The function refuses the first `Committed` entry, if one comes before the first gap. -/
def FailsAtFirst (applyFn : ApplyFn) : Prop :=
  ∀ p ∈ (offered self.logEntries 0 self.commitIndex).head?, applyFn 0 p.2 ≠ .ok ()

/-- Every entry up to the commit index has the status `Committed`. -/
def AllCommitted : Prop :=
  ∀ k ∈ List.range' 1 self.commitIndex, CommittedAt self.logEntries k

/-- Each function up to the first that gets through fails at the first `Committed` entry, except
that the last of all may fail anywhere; and if one gets through, all entries are `Committed`. -/
def AppliesOnce : List ApplyFn → Prop
  | [] => True
  | applyFn :: applyFns =>
    self.GetsThrough applyFn ∧ self.AllCommitted ∨
      ¬ self.GetsThrough applyFn ∧
        (applyFns = [] ∨ self.FailsAtFirst applyFn ∧ AppliesOnce applyFns)

end Inputs

/-- A manager and the calls that were made to apply functions so far. -/
structure Applied (Data : Type) where
  manager : LogReplicationManager Data
  calls : List ApplyCall

namespace Applied

variable {Data : Type} {s : Applied Data}

/-- One call of `apply_committed_entries`, with what it hands to its function recorded. -/
def step (s : Applied Data) (applyFn : ApplyFn) : Applied Data :=
  let (manager, calls, _) := s.manager.applyCommittedEntries applyFn
  ⟨manager, s.calls ++ calls⟩

/-- No entry is offered again after an `Ok`, and all up to `last_applied` were applied. -/
def OnceEach (s : Applied Data) : Prop :=
  s.calls.Pairwise (fun c c' => c.2 = .ok () → c'.1 ≠ c.1) ∧
    ∀ k, 0 < k → k ≤ s.manager.lastApplied → (k, .ok ()) ∈ s.calls

theorem step_eq (s : Applied Data) (applyFn : ApplyFn) :
    let loop := applyLoop s.manager.logEntries applyFn
      (s.manager.commitIndex - s.manager.lastApplied) s.manager.lastApplied 0
    s.step applyFn = ⟨{ s.manager with
      lastApplied := if loop.2.isOk = true
        then max s.manager.lastApplied s.manager.commitIndex else s.manager.lastApplied },
      s.calls ++ loop.1⟩ := by
  unfold step applyCommittedEntries
  cases hr : (applyLoop s.manager.logEntries applyFn
    (s.manager.commitIndex - s.manager.lastApplied) s.manager.lastApplied 0).2 <;>
    simp [hr, Except.isOk, Except.toBool]

/-- Once `last_applied` has reached the commit index, a call does nothing. -/
theorem always_of_reached (h : s.manager.commitIndex ≤ s.manager.lastApplied)
    (applyFns : List ApplyFn) : Always step OnceEach s applyFns ↔ s.OnceEach := by
  have hstep : ∀ applyFn, s.step applyFn = s := by
    intro applyFn
    simp [step_eq, Nat.sub_eq_zero_of_le h, applyLoop, h, Except.isOk, Except.toBool]
  induction applyFns with
  | nil => exact always_nil
  | cons applyFn applyFns ih =>
    rw [always_cons, hstep]
    exact ⟨And.left, fun hs => ⟨hs, ih.mpr hs⟩⟩

section Calls

variable {manager : LogReplicationManager Data} (hstart : manager.lastApplied = 0)
  {done : List ApplyCall} {applyFn : ApplyFn}
include hstart

theorem step_of_getsThrough (h : manager.GetsThrough applyFn) :
    step ⟨manager, done⟩ applyFn = ⟨{ manager with lastApplied := manager.commitIndex },
      done ++ callsOf applyFn 0 (offered manager.logEntries 0 manager.commitIndex)⟩ := by
  have hok := (isOk_applyLoop_iff manager.commitIndex 0 0).mpr (by simpa [GetsThrough] using h)
  simp [step_eq, hstart, hok, calls_applyLoop]

theorem step_of_not_getsThrough (h : ¬ manager.GetsThrough applyFn) :
    step ⟨manager, done⟩ applyFn = ⟨manager,
      done ++ callsOf applyFn 0 (offered manager.logEntries 0 manager.commitIndex)⟩ := by
  have hfails : ¬ (applyLoop manager.logEntries applyFn manager.commitIndex 0 0).2.isOk = true :=
    fun hok => h (by simpa [GetsThrough] using (isOk_applyLoop_iff _ _ _).mp hok)
  simp [step_eq, hstart, hfails, calls_applyLoop]
  rw [← hstart]

omit hstart in
theorem pairwise_calls (hdone : ∀ c ∈ done, c.2 ≠ .ok ()) :
    (done ++ callsOf applyFn 0 (offered manager.logEntries 0 manager.commitIndex)).Pairwise
      (fun c c' => c.2 = .ok () → c'.1 ≠ c.1) := by
  have hkeys : ((callsOf applyFn 0 (offered manager.logEntries 0 manager.commitIndex)).map
      Prod.fst).Pairwise (· < ·) :=
    (List.pairwise_map.mpr (pairwise_offered _ _)).sublist (keys_callsOf _ _).sublist
  refine List.pairwise_append.mpr ⟨?_, (List.pairwise_map.mp hkeys).imp ?_, ?_⟩
  · exact List.pairwise_of_forall_mem_list fun c hc _ _ hok => absurd hok (hdone c hc)
  · intro c c' hlt _
    exact Nat.ne_of_gt hlt
  · intro c hc _ _ hok
    exact absurd hok (hdone c hc)

private theorem onceEach_of_getsThrough (hdone : ∀ c ∈ done, c.2 ≠ .ok ())
    (h : manager.GetsThrough applyFn) :
    (step ⟨manager, done⟩ applyFn).OnceEach ↔ manager.AllCommitted := by
  rw [step_of_getsThrough hstart h, OnceEach, and_iff_right (pairwise_calls hdone)]
  constructor
  · intro hall k hk
    obtain ⟨hpos, hle⟩ := List.mem_range'_1.mp hk
    have hmem := (List.mem_append.mp (hall k hpos (by simp at hle ⊢; omega))).resolve_left
      fun hk => hdone _ hk rfl
    have hkey := (keys_callsOf _ _).subset (List.mem_map_of_mem hmem)
    obtain ⟨p, hp, hpk⟩ := List.mem_map.mp hkey
    rw [← show p.1 = k from hpk]
    exact mem_offered hp
  · intro hall k hpos hle
    have hk : k ∈ List.range' 1 manager.commitIndex :=
      List.mem_range'_1.mpr ⟨hpos, by simp at hle; omega⟩
    obtain ⟨entry, hent⟩ := exists_offered h.1 hk (hall k hk)
    exact List.mem_append_right _ (mem_callsOf (by simpa using h.2) hent)

/-- If an entry was applied and the call did not complete, the next call offers the first entry
again. -/
theorem not_onceEach_again {applyFn' : ApplyFn} (hfails : ¬ manager.GetsThrough applyFn)
    (hfirst : ¬ manager.FailsAtFirst applyFn) :
    ¬ (step (step ⟨manager, done⟩ applyFn) applyFn').OnceEach := by
  simp only [FailsAtFirst, not_forall, not_not] at hfirst
  obtain ⟨p, hp, hok⟩ := hfirst
  have hhead : ∀ applyFn, (p.1, applyFn 0 p.2) ∈
      callsOf applyFn 0 (offered manager.logEntries 0 manager.commitIndex) := by
    intro applyFn
    refine List.mem_of_mem_head? ?_
    rw [head_callsOf, hp]
    rfl
  rw [step_of_not_getsThrough hstart hfails]
  intro honce
  have hpairs : (done ++ callsOf applyFn 0 (offered manager.logEntries 0 manager.commitIndex) ++
      callsOf applyFn' 0 (offered manager.logEntries 0 manager.commitIndex)).Pairwise
      (fun c c' => c.2 = .ok () → c'.1 ≠ c.1) := by
    by_cases h : manager.GetsThrough applyFn'
    · rw [step_of_getsThrough hstart h] at honce
      exact honce.1
    · rw [step_of_not_getsThrough hstart h] at honce
      exact honce.1
  exact (List.pairwise_append.mp hpairs).2.2 _ (List.mem_append_right _ (hhead applyFn)) _
    (hhead applyFn') hok rfl

private theorem always_onceEach_iff (hdone : ∀ c ∈ done, c.2 ≠ .ok ()) (applyFns : List ApplyFn) :
    Always step OnceEach ⟨manager, done⟩ applyFns ↔ manager.AppliesOnce applyFns := by
  have honce : ∀ done : List ApplyCall, done.Pairwise (fun c c' => c.2 = .ok () → c'.1 ≠ c.1) →
      OnceEach ⟨manager, done⟩ := by
    intro done hpairs
    exact ⟨hpairs, fun k hpos hk => absurd hk (by rw [hstart]; omega)⟩
  have hnow : OnceEach ⟨manager, done⟩ :=
    honce done (List.pairwise_of_forall_mem_list fun c hc _ _ hok => absurd hok (hdone c hc))
  induction applyFns generalizing done with
  | nil => exact iff_of_true (always_nil.mpr hnow) trivial
  | cons applyFn applyFns ih =>
    rw [always_cons, and_iff_right hnow, AppliesOnce]
    by_cases hthr : manager.GetsThrough applyFn
    · have hreach : step ⟨manager, done⟩ applyFn = _ := step_of_getsThrough hstart hthr
      rw [always_of_reached (by rw [hreach]), onceEach_of_getsThrough hstart hdone hthr]
      simp [hthr]
    · have hstep : step ⟨manager, done⟩ applyFn = _ := step_of_not_getsThrough hstart hthr
      have hnext : (step ⟨manager, done⟩ applyFn).OnceEach := by
        rw [hstep]
        exact honce _ (pairwise_calls hdone)
      simp only [hthr, false_and, false_or, not_false_eq_true, true_and]
      by_cases hfirst : manager.FailsAtFirst applyFn
      · have hdone' : ∀ c ∈ done ++ callsOf applyFn 0
            (offered manager.logEntries 0 manager.commitIndex), c.2 ≠ .ok () := by
          intro c hc
          exact (List.mem_append.mp hc).elim (hdone c) (ne_ok_of_mem_callsOf hfirst)
        rw [hstep] at hnext ⊢
        refine (ih hdone' hnext).trans ?_
        cases applyFns with
        | nil => simp [AppliesOnce]
        | cons => simp [hfirst]
      · cases applyFns with
        | nil => simpa using always_nil.mpr hnext
        | cons applyFn' =>
          simp only [hfirst, false_and, or_false, reduceCtorEq, iff_false]
          intro halways
          exact not_onceEach_again hstart hthr hfirst
            (halways [applyFn'] (by simp))

end Calls

/-- Entries are applied once each, throughout any calls on a manager that starts with
`last_applied` 0, iff the log and the answers of the functions are such that every call but the
last fails at the first `Committed` entry, until one gets through with all of them `Committed`. -/
theorem onceEach_iff (manager : LogReplicationManager Data) (hstart : manager.lastApplied = 0)
    (applyFns : List ApplyFn) :
    Always step OnceEach ⟨manager, []⟩ applyFns ↔ manager.AppliesOnce applyFns :=
  always_onceEach_iff hstart (by simp) applyFns

/-- A manager with two entries up to its commit index; the second has a given status. -/
def twoEntries (second : CommitStatus) : LogReplicationManager LogEntry :=
  { nodeId := ⟨0⟩, walStorage := ⟨[], 0⟩, commitIndex := 2, lastApplied := 0, matchIndex := ∅
    config := .default, requestCounter := 0, pendingRequests := [], followerState := ∅
    logEntries := (∅ : TreeMap Nat RaftWalEntry).insert 1 ⟨.new 1 1 [] ⟨0⟩, 1, .committed⟩
      |>.insert 2 ⟨.new 1 2 [] ⟨0⟩, 2, second⟩ }

def failsAfter (n : Nat) : ApplyFn :=
  fun appliedCount _ => if appliedCount < n then .ok () else .error (.generic "apply failed")

theorem onceEach_twoEntries :
    Always step OnceEach ⟨twoEntries .committed, []⟩
      [failsAfter 0, failsAfter 2, failsAfter 1] := by
  refine (onceEach_iff (twoEntries .committed) rfl _).mpr ?_
  have hoffered : offered (twoEntries .committed).logEntries 0 2 =
      [(1, ⟨.new 1 1 [] ⟨0⟩, 1, .committed⟩), (2, ⟨.new 1 2 [] ⟨0⟩, 2, .committed⟩)] := rfl
  have hcomd : (twoEntries .committed).AllCommitted := by
    intro k hk
    obtain rfl | rfl : k = 1 ∨ k = 2 := by simpa [twoEntries, List.range'] using hk
    all_goals exact ⟨_, rfl, rfl⟩
  refine .inr ⟨fun h => ?_, .inr ⟨fun p hp => ?_, .inl ⟨⟨?_, ?_⟩, hcomd⟩⟩⟩
  · cases h.2 0 _ rfl
  · simp [failsAfter]
  · intro k hk
    obtain ⟨entry, hent, -⟩ := hcomd k hk
    simp [hent]
  · intro i p hp
    change (offered (twoEntries .committed).logEntries 0 2)[i]? = some p at hp
    rw [hoffered] at hp
    have hi : i < 2 := (List.getElem?_eq_some_iff.mp hp).1
    simp [failsAfter, hi]

/-- The first call fails at the second entry, and the next one offers the first entry again; where
the second entry is pending it is never applied, though `last_applied` is 2. -/
theorem applied_entry_offered_again :
    let s := [failsAfter 1, failsAfter 2].foldl step ⟨twoEntries .committed, []⟩
    let t := step ⟨twoEntries .pending, []⟩ (failsAfter 2)
    s.calls.map (fun c => (c.1, c.2.isOk)) = [(1, true), (2, false), (1, true), (2, true)] ∧
      ¬ s.OnceEach ∧ t.manager.lastApplied = 2 ∧ t.calls.map Prod.fst = [1] ∧ ¬ t.OnceEach := by
  intro s t
  have hs : s.calls = [(1, .ok ()), (2, .error (.generic "apply failed")), (1, .ok ()),
    (2, .ok ())] := rfl
  have ht : t.calls = [(1, .ok ())] := rfl
  refine ⟨rfl, fun h => ?_, rfl, rfl, fun h => ?_⟩
  · have honce := h.1
    simp [hs] at honce
  · have happlied := h.2 2 (by decide) Nat.le.refl
    simp [ht] at happlied

end Applied

end LogReplicationManager

end Kaelix.Cluster.Raft
