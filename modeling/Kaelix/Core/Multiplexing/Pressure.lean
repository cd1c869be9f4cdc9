import Kaelix.Core.Multiplexing.BackpressureManager
import Kaelix.Lib.Pointwise
import Mathlib.Algebra.Order.Field.Basic
import Mathlib.Tactic.NormNum

/-!
# Global pressure

`update_global_pressure` takes the highest level that more streams are at than it has room
for: a tenth of the streams at `Critical`, two tenths at `Heavy`, three tenths at `Moderate`,
and none at `Light`.  A stream that rises leaves its level, so the level may have room again
while the one above still has.
-/

namespace Kaelix.Core.Multiplexing

open Lib

namespace BackpressureLevel

def all : List BackpressureLevel := [.none, .light, .moderate, .heavy, .critical]

variable (level : BackpressureLevel)

def upwards : List BackpressureLevel := all.filter (level ≤ ·)

/-- How many of `total` streams can be at a level before it counts. -/
def room (total : Nat) : BackpressureLevel → Nat
  | .none => total
  | .light => 0
  | .moderate => 3 * total / 10
  | .heavy => 2 * total / 10
  | .critical => total / 10

theorem mem_upwards {level other : BackpressureLevel} : other ∈ upwards level ↔ level ≤ other := by
  cases level <;> cases other <;> decide

theorem pairwise_upwards : (upwards level).Pairwise (· < ·) :=
  List.Pairwise.filter _ (by decide)

theorem upwards_eq_cons : ∃ above, upwards level = level :: above := by
  cases level <;> exact ⟨_, rfl⟩

end BackpressureLevel

open BackpressureLevel

/-- A level counts if more streams are at it than it has room for. -/
def Exceeded (levels : List BackpressureLevel) (level : BackpressureLevel) : Prop :=
  room levels.length level < levels.count level

/-- More streams are at a level or above than there is room for. -/
def Overfull (levels : List BackpressureLevel) (level : BackpressureLevel) : Prop :=
  (level.upwards.map (room levels.length)).sum < (level.upwards.map levels.count).sum

private theorem lt_ratio_iff {total : Nat} (htot : 0 < total) (count a : Nat) :
    (count : Rat) / total > (a : Rat) / 10 ↔ a * total / 10 < count := by
  have hpos : (0 : Rat) < total := by exact_mod_cast htot
  rw [gt_iff_lt, div_lt_div_iff₀ (by norm_num) hpos, Nat.div_lt_iff_lt_mul (by decide)]
  exact_mod_cast Iff.rfl

variable {levels : List BackpressureLevel}

theorem globalLevel_eq (hne : 0 < levels.length) :
    globalLevel levels =
      if levels.length / 10 < levels.count .critical then .critical
      else if 2 * levels.length / 10 < levels.count .heavy then .heavy
      else if 3 * levels.length / 10 < levels.count .moderate then .moderate
      else if 0 < levels.count .light then .light
      else .none := by
  have hcritical := lt_ratio_iff hne (levels.count .critical) 1
  have hheavy := lt_ratio_iff hne (levels.count .heavy) 2
  have hmoderate := lt_ratio_iff hne (levels.count .moderate) 3
  simp only [Nat.cast_one, Nat.cast_ofNat, Nat.one_mul] at hcritical hheavy hmoderate
  simp only [globalLevel, Nat.ne_of_gt hne, if_false, hcritical, hheavy, hmoderate, gt_iff_lt]

theorem not_exceeded_none (levels : List BackpressureLevel) : ¬ Exceeded levels .none :=
  Nat.not_lt.mpr List.count_le_length

variable {level : BackpressureLevel}

theorem le_globalLevel_of_exceeded (h : Exceeded levels level) : level ≤ globalLevel levels := by
  have hne : 0 < levels.length := lt_of_lt_of_le (Nat.zero_lt_of_lt h) List.count_le_length
  rw [globalLevel_eq hne]
  cases level with
  | none => exact absurd h (not_exceeded_none levels)
  | light =>
    simp only [show 0 < levels.count .light from h, if_true]
    split_ifs <;> decide
  | moderate =>
    simp only [show 3 * levels.length / 10 < levels.count .moderate from h, if_true]
    split_ifs <;> decide
  | heavy =>
    simp only [show 2 * levels.length / 10 < levels.count .heavy from h, if_true]
    split_ifs <;> decide
  | critical => simp [show levels.length / 10 < levels.count .critical from h]

theorem exceeded_globalLevel (h : globalLevel levels ≠ .none) :
    Exceeded levels (globalLevel levels) := by
  have hne : 0 < levels.length := by
    by_contra hzero
    exact h (by simp [globalLevel, Nat.eq_zero_of_not_pos hzero])
  rw [globalLevel_eq hne] at h ⊢
  split_ifs at h ⊢ <;> first | assumption | contradiction

theorem le_globalLevel_iff (hlvl : level ≠ .none) :
    level ≤ globalLevel levels ↔ ∃ other ∈ level.upwards, Exceeded levels other := by
  constructor
  · intro h
    have hnone : globalLevel levels ≠ .none := by
      intro heq
      rw [heq] at h
      exact hlvl (le_antisymm h (by cases level <;> decide))
    exact ⟨_, mem_upwards.mpr h, exceeded_globalLevel hnone⟩
  · rintro ⟨other, hmem, hexc⟩
    exact le_trans (mem_upwards.mp hmem) (le_globalLevel_of_exceeded hexc)

theorem Overfull.exists_exceeded
    (h : Overfull levels level) : ∃ other ∈ level.upwards, Exceeded levels other := by
  by_contra hnone
  push Not at hnone
  exact absurd (List.sum_le_sum fun other hoth => Nat.not_lt.mp (hnone other hoth))
    (Nat.not_le.mpr h)

theorem Overfull.raise {levels raised : List BackpressureLevel}
    (h : Overfull levels level) (hraise : List.Forall₂ (· ≤ ·) levels raised) :
    Overfull raised level := by
  have hnd : level.upwards.Nodup := (pairwise_upwards level).imp ne_of_lt
  have hcnt : levels.countP (· ∈ level.upwards) ≤ raised.countP (· ∈ level.upwards) := by
    apply countP_le_of_forall₂ _ hraise
    intro x y hxy hx
    simp only [decide_eq_true_eq, mem_upwards] at hx ⊢
    exact le_trans hx hxy
  rw [Overfull, sum_count_eq_countP hnd] at h ⊢
  rw [← hraise.length_eq]
  exact lt_of_lt_of_le h hcnt

private theorem exists_fall (hnone : globalLevel levels ≠ .none)
    (h : ¬ Overfull levels (globalLevel levels)) :
    ∃ raised, List.Forall₂ (· ≤ ·) levels raised ∧
      ¬ globalLevel levels ≤ globalLevel raised := by
  obtain ⟨above, hcons⟩ := upwards_eq_cons (globalLevel levels)
  have hsort := pairwise_upwards (globalLevel levels)
  rw [Overfull, Nat.not_lt] at h
  rw [hcons] at h hsort
  have habove : ∀ other ∈ above, levels.count other ≤ room levels.length other := by
    intro other hoth
    by_contra hcnt
    exact absurd (le_globalLevel_of_exceeded (Nat.not_le.mp hcnt))
      (not_le_of_gt ((List.pairwise_cons.mp hsort).1 other hoth))
  obtain ⟨raised, hraise, hroom, -⟩ := exists_settled (room levels.length) hsort habove h
  refine ⟨raised, hraise, ?_⟩
  rw [le_globalLevel_iff hnone, hcons]
  rintro ⟨other, hmem, hexc⟩
  rw [Exceeded, ← hraise.length_eq] at hexc
  exact absurd hexc (Nat.not_lt.mpr (hroom other hmem))

private theorem raise_le_iff (levels : List BackpressureLevel) :
    (∀ raised, List.Forall₂ (· ≤ ·) levels raised → globalLevel levels ≤ globalLevel raised) ↔
      globalLevel levels = .none ∨ Overfull levels (globalLevel levels) := by
  constructor
  · intro hmono
    by_contra hnot
    push Not at hnot
    obtain ⟨raised, hraise, hfall⟩ := exists_fall hnot.1 hnot.2
    exact hfall (hmono raised hraise)
  · intro h raised hraise
    rcases h with hnone | hfull
    · rw [hnone]
      cases globalLevel raised <;> decide
    · obtain ⟨other, hmem, hexc⟩ := (hfull.raise hraise).exists_exceeded
      exact le_trans (mem_upwards.mp hmem) (le_globalLevel_of_exceeded hexc)

/-- No streams of the manager can rise from these levels and lower the global pressure. -/
def NeverFalls (m : BackpressureManager) (level : UInt64 → BackpressureLevel) : Prop :=
  ∀ level' : UInt64 → BackpressureLevel, (∀ id ∈ m.streamStates.keys, level id ≤ level' id) →
    (m.assign level).updateGlobalPressure.globalPressure ≤
      (m.assign level').updateGlobalPressure.globalPressure

/-- The pressure of one list of levels is at most that of another iff above every level that
counts in the first there is one that counts in the second. -/
theorem globalLevel_le_iff (levels levels' : List BackpressureLevel) :
    globalLevel levels ≤ globalLevel levels' ↔
      ∀ level, Exceeded levels level → ∃ higher, level ≤ higher ∧ Exceeded levels' higher := by
  constructor
  · intro hle level hexc
    have hnone : level ≠ .none := by
      rintro rfl
      exact not_exceeded_none levels hexc
    obtain ⟨higher, hmem, hhigher⟩ :=
      (le_globalLevel_iff hnone).mp (le_trans (le_globalLevel_of_exceeded hexc) hle)
    exact ⟨higher, mem_upwards.mp hmem, hhigher⟩
  · intro h
    by_cases hnone : globalLevel levels = .none
    · rw [hnone]
      cases globalLevel levels' <;> decide
    · obtain ⟨higher, hle, hexc⟩ := h _ (exceeded_globalLevel hnone)
      exact le_trans hle (le_globalLevel_of_exceeded hexc)

/-- By counts alone: above every level that counts there is one that is overfull. -/
theorem overfull_globalLevel_iff (levels : List BackpressureLevel) :
    globalLevel levels = .none ∨ Overfull levels (globalLevel levels) ↔
      ∀ level, Exceeded levels level → ∃ higher, level ≤ higher ∧ Overfull levels higher := by
  constructor
  · rintro (hnone | hfull) level hexc
    · have hle := le_globalLevel_of_exceeded hexc
      rw [hnone] at hle
      cases level with
      | none => exact absurd hexc (not_exceeded_none levels)
      | _ => exact absurd hle (by decide)
    · exact ⟨_, le_globalLevel_of_exceeded hexc, hfull⟩
  · intro h
    by_cases hnone : globalLevel levels = .none
    · exact .inl hnone
    · obtain ⟨higher, hle, hfull⟩ := h _ (exceeded_globalLevel hnone)
      obtain ⟨other, hmem, hexc⟩ := hfull.exists_exceeded
      -- nothing above the global level counts, so the overfull level is the global one
      have hback := le_trans (mem_upwards.mp hmem) (le_globalLevel_of_exceeded hexc)
      rw [le_antisymm hle hback]
      exact .inr hfull

/-- Two assignments are in order iff above every level that counts in the first, one counts in
the second; and from the first no rise lowers the pressure iff above every level that counts
there are more streams at a level and beyond than there is room for. -/
theorem globalPressure_monotone_iff (m : BackpressureManager)
    (level : UInt64 → BackpressureLevel) :
    let levels := m.streamStates.keys.map level
    (∀ level' : UInt64 → BackpressureLevel,
        (m.assign level).updateGlobalPressure.globalPressure ≤
            (m.assign level').updateGlobalPressure.globalPressure ↔
          ∀ l, Exceeded levels l →
            ∃ higher, l ≤ higher ∧ Exceeded (m.streamStates.keys.map level') higher) ∧
      (NeverFalls m level ↔
        ∀ l, Exceeded levels l → ∃ higher, l ≤ higher ∧ Overfull levels higher) := by
  intro levels
  rw [← overfull_globalLevel_iff, ← raise_le_iff, NeverFalls]
  simp only [BackpressureManager.updateGlobalPressure, BackpressureManager.levels_assign]
  refine ⟨fun level' => globalLevel_le_iff _ _, ?_, ?_⟩
  · intro hmono raised hraise
    -- a list of levels above is an assignment, as every stream has its own place
    obtain ⟨level', hle, hmap⟩ := exists_assignment level m.streamStates.keys_nodup
      (List.forall₂_map_left_iff.mp hraise)
    rw [← hmap]
    exact hmono level' hle
  · intro hmono level' hle
    apply hmono
    rw [List.forall₂_map_left_iff, List.forall₂_map_right_iff, List.forall₂_same]
    exact hle

def tenStreams : BackpressureManager :=
  { BackpressureManager.new .adaptive with
    streamStates := HashMap.ofKeys [0, 1, 2, 3, 4, 5, 6, 7, 8, 9] (by decide)
      fun _ => StreamCreditState.new 1000 0 }

/-- Two of four streams that rise from `Moderate` to `Heavy` end the global pressure. -/
theorem globalPressure_falls :
    let before : UInt64 → BackpressureLevel := fun id => if id < 4 then .moderate else .none
    let after : UInt64 → BackpressureLevel := fun id =>
      if id < 2 then .heavy else if id < 4 then .moderate else .none
    (∀ id ∈ tenStreams.streamStates.keys, before id ≤ after id) ∧
      (tenStreams.assign before).updateGlobalPressure.globalPressure = .moderate ∧
      (tenStreams.assign after).updateGlobalPressure.globalPressure = .none ∧
      ¬ NeverFalls tenStreams before := by
  intro before after
  have hall : tenStreams.streamStates.keys.all fun id => before id ≤ after id := by decide
  have hrise : ∀ id ∈ tenStreams.streamStates.keys, before id ≤ after id := by
    simpa using hall
  have hbef : (tenStreams.assign before).updateGlobalPressure.globalPressure = .moderate := by
    rw [BackpressureManager.updateGlobalPressure, globalLevel_eq (by decide)]
    decide
  have hafter : (tenStreams.assign after).updateGlobalPressure.globalPressure = .none := by
    rw [BackpressureManager.updateGlobalPressure, globalLevel_eq (by decide)]
    decide
  refine ⟨hrise, hbef, hafter, fun h => ?_⟩
  have hle := h after hrise
  rw [hbef, hafter] at hle
  exact absurd hle (by decide)

end Kaelix.Core.Multiplexing
