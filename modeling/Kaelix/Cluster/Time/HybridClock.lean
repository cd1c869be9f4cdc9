import Kaelix.Lib.History
import Mathlib.Data.Prod.Lex

/-!
# Hybrid logical clocks

`HybridLogicalClock` of `kaelix-cluster/src/time/mod.rs`.  The wall clock is an argument of each
call and may repeat or go back; times are natural numbers, so nothing overflows.
-/

namespace Kaelix.Cluster.Time

open Lib

structure HybridLogicalClock where
  physicalTime : Nat
  logicalTime : Nat
deriving DecidableEq

namespace HybridLogicalClock

variable (self : HybridLogicalClock)

/-- `tick`, at a reading of the wall clock.  The new clock is also the value returned. -/
def tick (currentPhysical : Nat) : HybridLogicalClock :=
  if currentPhysical > self.physicalTime then
    { physicalTime := currentPhysical, logicalTime := 0 }
  else { self with logicalTime := self.logicalTime + 1 }

/-- `update`, at a reading of the wall clock.  There is no branch for a clock that is ahead
of both times. -/
def update (currentPhysical : Nat) (received : HybridLogicalClock) : HybridLogicalClock :=
  let maxPhysical := max currentPhysical received.physicalTime
  if maxPhysical > self.physicalTime then
    { physicalTime := maxPhysical
      logicalTime :=
        if maxPhysical = received.physicalTime then received.logicalTime + 1 else 0 }
  else if maxPhysical = self.physicalTime then
    { self with logicalTime := max self.logicalTime received.logicalTime + 1 }
  else self

def compare (self other : HybridLogicalClock) : Ordering :=
  match Ord.compare self.physicalTime other.physicalTime with
  | .eq => Ord.compare self.logicalTime other.logicalTime
  | ordering => ordering

/-- The calls that move the clock. -/
inductive Call
  | tick (now : Nat)
  | update (now : Nat) (received : HybridLogicalClock)
deriving DecidableEq

def perform : Call → HybridLogicalClock
  | .tick now => self.tick now
  | .update now received => self.update now received

def returned (self : HybridLogicalClock) : List Call → List HybridLogicalClock
  | [] => []
  | call :: calls => self.perform call :: (self.perform call).returned calls

/-- Each value is greater than all values before it, and the value of an update is greater
than the timestamp received. -/
structure Progress (start : HybridLogicalClock) (calls : List Call) : Prop where
  increasing : (start.returned calls).Pairwise fun v w => w.compare v = .gt
  afterReceived : ∀ (i now : Nat) (received : HybridLogicalClock),
    calls[i]? = some (.update now received) →
      ∃ v, (start.returned calls)[i]? = some v ∧ v.compare received = .gt

/-- The call is an update with a time received, and at a time, behind the clock. -/
def Behind : Call → Prop
  | .tick _ => False
  | .update now received => max now received.physicalTime < self.physicalTime

/-! ## One call -/

theorem compare_eq_gt_iff (v w : HybridLogicalClock) :
    v.compare w = .gt ↔
      toLex (w.physicalTime, w.logicalTime) < toLex (v.physicalTime, v.logicalTime) := by
  rw [Prod.Lex.toLex_lt_toLex, compare]
  rcases Nat.lt_trichotomy v.physicalTime w.physicalTime with hlt | heq | hgt
  · rw [Nat.compare_eq_lt.mpr hlt]
    simp [hlt.not_gt, hlt.ne']
  · rw [Nat.compare_eq_eq.mpr heq, heq]
    simp [Nat.compare_eq_gt]
  · rw [Nat.compare_eq_gt.mpr hgt]
    simp [hgt]

private theorem compare_gt_trans {u v w : HybridLogicalClock} (h : v.compare u = .gt)
    (h' : w.compare v = .gt) : w.compare u = .gt := by
  rw [compare_eq_gt_iff] at h h' ⊢
  exact h.trans h'

section

variable (c : HybridLogicalClock)

private theorem compare_perform_iff (call : Call) :
    (c.perform call).compare c = .gt ↔ ¬ c.Behind call := by
  rw [compare_eq_gt_iff, Prod.Lex.toLex_lt_toLex]
  cases call with
  | tick =>
    simp only [perform, tick, Behind, not_false_iff, iff_true]
    split
    · exact .inl ‹_›
    · exact .inr ⟨rfl, Nat.lt_succ_self _⟩
  | update =>
    simp only [perform, update, Behind, Nat.not_lt]
    split
    · exact iff_of_true (.inl ‹_›) (Nat.le_of_lt ‹_›)
    · split
      · refine iff_of_true (.inr ⟨rfl, ?_⟩) (Nat.le_of_eq (Eq.symm ‹_›))
        exact Nat.lt_succ_of_le (Nat.le_max_left _ _)
      · refine iff_of_false ?_ ?_
        · simp
        · omega

private theorem compare_update_received (now : Nat)
    (received : HybridLogicalClock) : (c.update now received).compare received = .gt := by
  rw [compare_eq_gt_iff, Prod.Lex.toLex_lt_toLex]
  simp only [update]
  by_cases hahead : max now received.physicalTime > c.physicalTime
  · rw [if_pos hahead]
    by_cases heq : max now received.physicalTime = received.physicalTime
    · rw [if_pos heq]
      exact .inr ⟨heq.symm, Nat.lt_succ_self _⟩
    · exact .inl (Nat.lt_of_le_of_ne (Nat.le_max_right _ _) (Ne.symm heq))
  · rw [if_neg hahead]
    have hle : received.physicalTime ≤ max now received.physicalTime := Nat.le_max_right _ _
    by_cases heq : max now received.physicalTime = c.physicalTime
    · rw [if_pos heq]
      rcases Nat.lt_or_eq_of_le (heq ▸ hle) with hlt | hsame
      · exact .inl hlt
      · exact .inr ⟨hsame, Nat.lt_succ_of_le (Nat.le_max_right _ _)⟩
    · rw [if_neg heq]
      exact .inl (by omega)

/-! ## Runs -/

private theorem pairwise_cons_returned_iff (calls : List Call) :
    (c :: c.returned calls).Pairwise (fun v w => w.compare v = .gt) ↔
      EachStep perform (fun c call => ¬ c.Behind call) c calls := by
  have : IsTrans HybridLogicalClock fun v w => w.compare v = .gt :=
    ⟨fun _ _ _ => compare_gt_trans⟩
  rw [← List.isChain_iff_pairwise]
  induction calls generalizing c with
  | nil => exact iff_of_true (List.IsChain.singleton _) eachStep_nil
  | cons call calls ih =>
    rw [returned, List.isChain_cons_cons, compare_perform_iff, eachStep_cons]
    exact and_congr_right fun _ => ih (c.perform call)

private theorem received_lt_returned (calls : List Call) {i now : Nat}
    {received : HybridLogicalClock} (h : calls[i]? = some (.update now received)) :
    ∃ v, (c.returned calls)[i]? = some v ∧ v.compare received = .gt := by
  induction calls generalizing c i with
  | nil => cases h
  | cons call calls ih =>
    cases i with
    | zero =>
      cases h
      exact ⟨_, rfl, compare_update_received c now received⟩
    | succ => exact ih (c.perform call) h

end

/-- No call after the first is behind the clock. -/
def NeverBehind : List Call → Prop
  | [] => True
  | call :: calls => EachStep perform (fun c call => ¬ c.Behind call) (self.perform call) calls

/-- The values of a run make progress iff no update but the first call finds both the wall
clock and the received time behind the clock. -/
theorem clock_progress_iff (start : HybridLogicalClock) (calls : List Call) :
    start.Progress calls ↔ start.NeverBehind calls := by
  have hinc : (start.returned calls).Pairwise (fun v w => w.compare v = .gt) ↔
      start.NeverBehind calls := by
    cases calls with
    | nil => exact iff_of_true List.Pairwise.nil trivial
    | cons call calls => exact pairwise_cons_returned_iff (start.perform call) calls
  constructor
  · intro h
    exact hinc.mp h.increasing
  · intro h
    exact ⟨hinc.mpr h, fun _ _ _ hcall => received_lt_returned start calls hcall⟩

/-- After a tick, an update at an earlier time with an old timestamp returns the value of
the tick again. -/
theorem clock_stands_still :
    (HybridLogicalClock.mk 10 0).returned [.tick 20, .update 15 ⟨5, 0⟩] = [⟨20, 0⟩, ⟨20, 0⟩] ∧
      ¬ (HybridLogicalClock.mk 10 0).Progress [.tick 20, .update 15 ⟨5, 0⟩] := by
  refine ⟨by decide, fun h => ?_⟩
  have hgt : (HybridLogicalClock.mk 20 0).compare ⟨20, 0⟩ = .gt :=
    (List.pairwise_cons.mp h.increasing).1 _ (by decide)
  exact absurd hgt (by decide)

end HybridLogicalClock

end Kaelix.Cluster.Time
