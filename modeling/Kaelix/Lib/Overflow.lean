import Mathlib.Algebra.Order.BigOperators.Group.List
import Mathlib.Algebra.Order.Ring.Int

/-!
# Arithmetic with and without overflow checks

The operators on machine integers panic on overflow in a build with overflow checks, and wrap
around in a build without.  An operation whose exact result fits gives it in both builds.

The last part is about counters that are raised up to a limit.
-/

namespace Kaelix.Lib

/-- A panic with its message. -/
structure Panic where
  message : String
  deriving DecidableEq

/-- What a call fails with: an error that it returns, or a panic. -/
inductive Failure (ε : Type) where
  | error (e : ε)
  | panic (p : Panic)
  deriving DecidableEq

section

variable {α β ε : Type}

/-- The first failure is `e`. -/
def FailsFirst (f : α → Except ε β) (xs : List α) (e : ε) : Prop :=
  ∃ before x after, xs = before ++ x :: after ∧ (∀ b ∈ before, (f b).isOk) ∧ f x = .error e

variable {f : α → Except ε β} {xs : List α} {e : ε}

private theorem failsFirst_cons {x : α} :
    FailsFirst f (x :: xs) e ↔ f x = .error e ∨ (f x).isOk ∧ FailsFirst f xs e := by
  constructor
  · rintro ⟨before, y, after, heq, hbef, hy⟩
    cases before with
    | nil =>
      cases heq
      exact .inl hy
    | cons b before =>
      cases heq
      simp only [List.forall_mem_cons] at hbef
      exact .inr ⟨hbef.1, before, y, after, rfl, hbef.2, hy⟩
  · rintro (hx | ⟨hx, before, y, after, rfl, hbef, hy⟩)
    · exact ⟨[], x, xs, rfl, by simp, hx⟩
    · exact ⟨x :: before, y, after, rfl, by simpa using ⟨hx, hbef⟩, hy⟩

theorem mapM_eq_error_iff : xs.mapM f = .error e ↔ FailsFirst f xs e := by
  induction xs with
  | nil => simp [FailsFirst, pure, Except.pure]
  | cons x xs ih =>
    rw [List.mapM_cons, failsFirst_cons, ← ih]
    cases hx : f x with
    | error => simp [bind, Except.bind, Except.isOk, Except.toBool]
    | ok =>
      cases xs.mapM f <;>
        simp [bind, Except.bind, pure, Except.pure, Except.isOk, Except.toBool]

theorem isOk_of_mapM_eq_ok {ys : List β} (h : xs.mapM f = .ok ys) : ∀ x ∈ xs, (f x).isOk := by
  induction xs generalizing ys with
  | nil => simp
  | cons x xs ih =>
    rw [List.mapM_cons] at h
    cases hx : f x with
    | error => simp [hx, bind, Except.bind] at h
    | ok =>
      cases hxs : xs.mapM f with
      | error => simp [hx, hxs, bind, Except.bind] at h
      | ok => simpa [hx, Except.isOk, Except.toBool] using ih hxs

end

section

variable (overflowChecks : Bool)

/-- `a * b` on `u64`. -/
def mulU64 (a b : UInt64) : Except Panic UInt64 :=
  if overflowChecks ∧ 2 ^ 64 ≤ a.toNat * b.toNat then
    .error ⟨"attempt to multiply with overflow"⟩
  else .ok (a * b)

/-- The number is an `i32`. -/
def FitsI32 (n : Int) : Prop := -2 ^ 31 ≤ n ∧ n < 2 ^ 31

instance (n : Int) : Decidable (FitsI32 n) := inferInstanceAs (Decidable (_ ∧ _))

/-- `a + b` on `i32`. -/
def addI32 (a b : Int32) : Except Panic Int32 :=
  if overflowChecks ∧ ¬ FitsI32 (a.toInt + b.toInt) then
    .error ⟨"attempt to add with overflow"⟩
  else .ok (a + b)

/-- `a - b` on `i32`. -/
def subI32 (a b : Int32) : Except Panic Int32 :=
  if overflowChecks ∧ ¬ FitsI32 (a.toInt - b.toInt) then
    .error ⟨"attempt to subtract with overflow"⟩
  else .ok (a - b)

end

/-- `a as u64`. -/
def i32AsU64 (a : Int32) : UInt64 := a.toInt64.toUInt64

/-- `n as i32`. -/
def u64AsI32 (n : UInt64) : Int32 := n.toUInt32.toInt32

section

variable {overflowChecks : Bool} {a b : Int32}

theorem mulU64_of_fits {a b : UInt64} (h : overflowChecks → a.toNat * b.toNat < 2 ^ 64) :
    mulU64 overflowChecks a b = .ok (a * b) :=
  if_neg fun hover => absurd hover.2 (Nat.not_le.mpr (h hover.1))

theorem mulU64_of_not_fits {a b : UInt64} (h : ¬ a.toNat * b.toNat < 2 ^ 64) :
    mulU64 true a b = .error ⟨"attempt to multiply with overflow"⟩ :=
  if_pos ⟨rfl, Nat.not_lt.mp h⟩

theorem fitsI32_toInt (a : Int32) : FitsI32 a.toInt := ⟨a.le_toInt, a.toInt_lt⟩

theorem nonneg_iff_toInt : 0 ≤ a ↔ 0 ≤ a.toInt := by
  rw [Int32.le_iff_toInt_le, Int32.toInt_zero]

theorem pos_iff_toInt : 0 < a ↔ 0 < a.toInt := by
  rw [Int32.lt_iff_toInt_lt, Int32.toInt_zero]

theorem bmod_of_fits {n : Int} (h : FitsI32 n) : n.bmod (2 ^ 32) = n := by
  obtain ⟨hle, hlt⟩ := h
  exact Int.bmod_eq_of_le (by omega) (by omega)

theorem addI32_of_fits (h : FitsI32 (a.toInt + b.toInt)) :
    addI32 overflowChecks a b = .ok (a + b) :=
  if_neg fun hover => hover.2 h

theorem addI32_of_not_fits (h : ¬ FitsI32 (a.toInt + b.toInt)) :
    addI32 true a b = .error ⟨"attempt to add with overflow"⟩ :=
  if_pos ⟨rfl, h⟩

theorem toInt_add_of_fits (h : FitsI32 (a.toInt + b.toInt)) :
    (a + b).toInt = a.toInt + b.toInt := by
  rw [Int32.toInt_add, bmod_of_fits h]

theorem subI32_of_fits (h : FitsI32 (a.toInt - b.toInt)) :
    subI32 overflowChecks a b = .ok (a - b) :=
  if_neg fun hover => hover.2 h

theorem toInt_sub_of_fits (h : FitsI32 (a.toInt - b.toInt)) :
    (a - b).toInt = a.toInt - b.toInt := by
  rw [Int32.toInt_sub, bmod_of_fits h]

theorem toInt_min (a b : Int32) : (min a b).toInt = min a.toInt b.toInt := by
  change (if a ≤ b then a else b).toInt = _
  split
  · next hle =>
    rw [Int32.le_iff_toInt_le] at hle
    omega
  · next hle =>
    rw [Int32.le_iff_toInt_le] at hle
    omega

theorem toInt_u64AsI32 {n : UInt64} (h : n.toNat < 2 ^ 31) : (u64AsI32 n).toInt = n.toNat := by
  have hsmall : n.toUInt32.toNat = n.toNat := by
    rw [UInt64.toNat_toUInt32]
    omega
  have hcond := BitVec.toInt_eq_toNat_cond n.toUInt32.toBitVec
  have hnat : n.toUInt32.toBitVec.toNat = n.toUInt32.toNat := rfl
  show n.toUInt32.toBitVec.toInt = n.toNat
  rw [hcond, hnat, hsmall, if_pos (by omega)]

private theorem toNat_i32AsU64 (h : 0 ≤ a.toInt) : ((i32AsU64 a).toNat : Int) = a.toInt := by
  have hcond := BitVec.toInt_eq_toNat_cond a.toInt64.toBitVec
  have hsame : a.toInt64.toBitVec.toInt = a.toInt := Int32.toInt_toInt64 a
  have hlt := a.toInt_lt
  have hnat : (i32AsU64 a).toNat = a.toInt64.toBitVec.toNat := rfl
  rw [hnat]
  split at hcond
  · omega
  · have := a.toInt64.toBitVec.isLt
    omega

theorem toNat_add_i32AsU64 {n : UInt64} (h : 0 ≤ a.toInt) (hfits : n.toNat + a.toInt < 2 ^ 64) :
    ((n + i32AsU64 a).toNat : Int) = n.toNat + a.toInt := by
  have hexact := toNat_i32AsU64 h
  rw [UInt64.toNat_add, Nat.mod_eq_of_lt (by omega)]
  omega

end

/-! ### Counters with a limit -/

/-- The counter `c`, raised by `a` but not over `limit`; it is never lowered. -/
def raiseTo (limit c a : Int) : Int := max c (min (c + max 0 a) limit)

theorem raiseTo_zero (limit c : Int) : raiseTo limit c 0 = c := by
  rw [raiseTo]
  omega

theorem raiseTo_max (limit c a : Int) : raiseTo limit c (max 0 a) = raiseTo limit c a := by
  rw [raiseTo, raiseTo]
  omega

theorem raiseTo_of_le {limit c : Int} (h : limit ≤ c) (a : Int) : raiseTo limit c a = c := by
  rw [raiseTo]
  omega

theorem raiseTo_of_lt {limit c a : Int} (h : c < limit) (ha : 0 ≤ a) :
    raiseTo limit c a = min (c + a) limit := by
  rw [raiseTo]
  omega

theorem raiseTo_raiseTo (limit c a b : Int) :
    raiseTo limit (raiseTo limit c a) b = raiseTo limit c (max 0 a + max 0 b) := by
  have ha : 0 ≤ max 0 a := le_max_left 0 a
  have hb : 0 ≤ max 0 b := le_max_left 0 b
  rw [← raiseTo_max limit c a, ← raiseTo_max limit _ b]
  generalize max 0 a = a, max 0 b = b at ha hb
  rcases le_or_gt limit c with hc | hc
  · rw [raiseTo_of_le hc, raiseTo_of_le hc, raiseTo_of_le hc]
  · rw [raiseTo_of_lt hc ha, raiseTo_of_lt hc (Int.add_nonneg ha hb)]
    rcases le_or_gt limit (c + a) with hreach | hreach
    · rw [min_eq_right hreach, raiseTo_of_le (Int.le_refl limit)]
      omega
    · rw [min_eq_left (Int.le_of_lt hreach), raiseTo_of_lt hreach hb, Int.add_assoc]

theorem sum_max_zero_nonneg (as : List Int) : 0 ≤ (as.map (max 0)).sum := by
  refine List.sum_nonneg fun x hx => ?_
  obtain ⟨a, -, rfl⟩ := List.mem_map.mp hx
  exact le_max_left 0 a

theorem raiseTo_eq_raiseTo_iff {limit c a b : Int} (ha : 0 ≤ a) (hb : 0 ≤ b) :
    raiseTo limit c a = raiseTo limit c b ↔
      limit ≤ c ∨ a = b ∨ limit ≤ c + a ∧ limit ≤ c + b := by
  rcases le_or_gt limit c with hc | hc
  · simp [raiseTo_of_le hc, hc]
  · rw [raiseTo_of_lt hc ha, raiseTo_of_lt hc hb]
    omega

end Kaelix.Lib
