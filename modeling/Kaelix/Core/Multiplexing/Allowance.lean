import Kaelix.Core.Multiplexing.Credits

/-!
# The allowance of a stream

A stream starts with the `initial_credits` of the configuration.  `refill_credits` has another
limit, `DEFAULT_INITIAL_CREDITS`, and computes with machine integers.
-/

namespace Kaelix.Core.Multiplexing

open Lib

namespace StreamCreditState

variable (overflowChecks : Bool)

def consumeAll (s : StreamCreditState) (amounts : List Int32) : StreamCreditState :=
  amounts.foldl (fun s amount => (s.tryConsume overflowChecks amount).2) s

def amountDue (maxRefillRate : UInt64) (elapsed : Nat) : Nat :=
  elapsed / 1000000 * maxRefillRate.toNat / 1000

/-- The product, the conversion and the addition of a refill do not wrap around. -/
structure Exact (maxRefillRate : UInt64) (s : StreamCreditState) (elapsed : Nat) : Prop where
  product : (UInt64.ofNat (elapsed / 1000000) * maxRefillRate).toNat =
    elapsed / 1000000 * maxRefillRate.toNat
  conversion : (amountFor maxRefillRate elapsed).toInt = amountDue maxRefillRate elapsed
  addition : (s.credits + amountFor maxRefillRate elapsed).toInt =
    s.credits.toInt + (amountFor maxRefillRate elapsed).toInt

/-- A refill returns without wrapping around, does not lower the credits, nor raise them over
the allowance, and restores it as soon as enough is due. -/
def Restores (config : BackpressureConfig) (s : StreamCreditState) (elapsed : Nat) : Prop :=
  s.Exact config.maxRefillRate elapsed ∧
  ∃ s', s.refillCredits overflowChecks config.maxRefillRate (s.lastRefill + elapsed) =
      (.ok (), s') ∧
    s.credits ≤ s'.credits ∧ s'.credits ≤ config.initialCredits ∧
    (config.initialCredits.toInt - s.credits.toInt ≤ amountDue config.maxRefillRate elapsed →
      s'.credits = config.initialCredits)

/-- Nothing overflows, and less is due than what is missing, or the allowance is that of
`DEFAULT_INITIAL_CREDITS`, or it is not larger and just what is missing is due, or it is not
smaller and nothing is missing. -/
def Suits (config : BackpressureConfig) (s : StreamCreditState) (elapsed : Nat) : Prop :=
  let missing := config.initialCredits.toInt - s.credits.toInt
  let due := amountDue config.maxRefillRate elapsed
  elapsed / 1000000 * config.maxRefillRate.toNat < 2 ^ 64 ∧ s.credits.toInt + due < 2 ^ 31 ∧
    (due < missing ∨ config.initialCredits = 1000 ∨
      due = missing ∧ config.initialCredits ≤ 1000 ∨
      missing = 0 ∧ 1000 ≤ config.initialCredits)

section

variable {s : StreamCreditState}

private theorem tryConsume_bounds {amount : Int32} (hamt : 0 ≤ amount) (h : 0 ≤ s.credits.toInt)
    :
    0 ≤ (s.tryConsume overflowChecks amount).2.credits.toInt ∧
      (s.tryConsume overflowChecks amount).2.credits.toInt ≤ s.credits.toInt := by
  by_cases hle : amount ≤ s.credits
  · have hsub := Int32.toInt_sub_of_le s.credits amount hamt hle
    rw [tryConsume_of_le hamt hle]
    rw [nonneg_iff_toInt] at hamt
    rw [Int32.le_iff_toInt_le] at hle
    dsimp only
    omega
  · rw [tryConsume_of_lt (Int32.not_le.mp hle)]
    exact ⟨h, le_refl _⟩

private theorem consumeAll_bounds {amounts : List Int32} (hamounts : ∀ amount ∈ amounts, 0 ≤ amount)
    (h : 0 ≤ s.credits.toInt) :
    0 ≤ (s.consumeAll overflowChecks amounts).credits.toInt ∧
      (s.consumeAll overflowChecks amounts).credits.toInt ≤ s.credits.toInt := by
  induction amounts generalizing s with
  | nil => exact ⟨h, le_refl _⟩
  | cons amount amounts ih =>
    have hfirst := tryConsume_bounds overflowChecks (hamounts amount (by simp)) h
    have hrest := ih (fun a ha => hamounts a (by simp [ha])) hfirst.1
    exact ⟨hrest.1, hrest.2.trans hfirst.2⟩

end

section

variable {config : BackpressureConfig} {s : StreamCreditState} {elapsed : Nat}

variable {maxRefillRate : UInt64}

section

variable (hrate : 0 < maxRefillRate)
include hrate

section

variable (h : elapsed / 1000000 * maxRefillRate.toNat < 2 ^ 64)
include h

theorem toNat_product :
    (UInt64.ofNat (elapsed / 1000000)).toNat = elapsed / 1000000 ∧
      (UInt64.ofNat (elapsed / 1000000) * maxRefillRate).toNat =
        elapsed / 1000000 * maxRefillRate.toNat := by
  have hone : 1 ≤ maxRefillRate.toNat := hrate
  have hmillis : elapsed / 1000000 < 2 ^ 64 := (Nat.le_mul_of_pos_right _ hone).trans_lt h
  have hcast : (UInt64.ofNat (elapsed / 1000000)).toNat = elapsed / 1000000 :=
    UInt64.toNat_ofNat_of_lt' hmillis
  rw [UInt64.toNat_mul, hcast]
  exact ⟨rfl, Nat.mod_eq_of_lt h⟩

private theorem toInt_amountFor (hdue : amountDue maxRefillRate elapsed < 2 ^ 31) :
    (amountFor maxRefillRate elapsed).toInt = amountDue maxRefillRate elapsed := by
  have hdiv : (UInt64.ofNat (elapsed / 1000000) * maxRefillRate / 1000).toNat =
      amountDue maxRefillRate elapsed := by
    rw [UInt64.toNat_div, (toNat_product hrate h).2]
    rfl
  rw [amountFor, toInt_u64AsI32 (hdiv ▸ hdue), hdiv]

end

private theorem exact_iff (hnn : 0 ≤ s.credits.toInt) :
    s.Exact maxRefillRate elapsed ↔
      elapsed / 1000000 * maxRefillRate.toNat < 2 ^ 64 ∧
        s.credits.toInt + amountDue maxRefillRate elapsed < 2 ^ 31 := by
  constructor
  · intro h
    have hsum := (s.credits + amountFor maxRefillRate elapsed).toInt_lt
    rw [h.addition, h.conversion] at hsum
    exact ⟨h.product ▸ UInt64.toNat_lt _, hsum⟩
  · rintro ⟨hproduct, hsum⟩
    have hamt := toInt_amountFor hrate hproduct (by omega)
    have hfits : FitsI32 (s.credits.toInt + (amountFor maxRefillRate elapsed).toInt) := by
      rw [FitsI32, hamt]
      omega
    exact ⟨(toNat_product hrate hproduct).2, hamt, toInt_add_of_fits hfits⟩

end

private theorem refillCredits_of_exact (hrate : 0 < config.maxRefillRate)
    (hnn : 0 ≤ s.credits.toInt)
    (h : s.Exact config.maxRefillRate elapsed) :
    ∃ s', s.refillCredits overflowChecks config.maxRefillRate (s.lastRefill + elapsed) =
        (.ok (), s') ∧
      s'.credits.toInt =
        raiseTo 1000 s.credits.toInt (amountDue config.maxRefillRate elapsed) := by
  have hbds := (exact_iff hrate hnn).mp h
  have hfits : s.PollFits overflowChecks config.maxRefillRate elapsed := by
    constructor
    · intro _
      rw [(toNat_product hrate hbds.1).1]
      exact hbds.1
    · intro _
      rw [FitsI32, h.conversion]
      omega
  have hfill := refillCredits_of_fits hfits
  rw [h.conversion] at hfill
  exact hfill

end

/-- For a stream that has consumed some of its allowance, a refill does what the configuration
asks for exactly if nothing overflows and the limit of 1000 does not matter. -/
theorem refill_restores_iff (config : BackpressureConfig) (start : Nat) (amounts : List Int32)
    (elapsed : Nat) (hini : 0 ≤ config.initialCredits) (hrate : 0 < config.maxRefillRate)
    (hamounts : ∀ amount ∈ amounts, 0 ≤ amount) :
    ((new config.initialCredits start).consumeAll overflowChecks amounts).Restores
        overflowChecks config elapsed ↔
      ((new config.initialCredits start).consumeAll overflowChecks amounts).Suits
        config elapsed := by
  have hbds := consumeAll_bounds overflowChecks (s := new config.initialCredits start)
    hamounts (nonneg_iff_toInt.mp hini)
  generalize (new config.initialCredits start).consumeAll overflowChecks amounts = s at hbds ⊢
  have hle : s.credits.toInt ≤ config.initialCredits.toInt := hbds.2
  have hthousand : (1000 : Int32).toInt = 1000 := rfl
  rw [Restores, Suits, exact_iff hrate hbds.1, and_assoc]
  refine and_congr_right fun hproduct => and_congr_right fun hsum => ?_
  have hexact := (exact_iff hrate hbds.1).mpr ⟨hproduct, hsum⟩
  obtain ⟨s', hfill, hcred⟩ := refillCredits_of_exact overflowChecks hrate hbds.1 hexact
  rw [hfill]
  simp only [Prod.mk.injEq, true_and, exists_eq_left', Int32.le_iff_toInt_le, ← Int32.toInt_inj,
    hcred, hthousand, raiseTo]
  omega

def thousandCredits : BackpressureConfig :=
  { BackpressureConfig.conservative with initialCredits := 1000 }

/-- There, the 300 credits that were consumed are back after a second. -/
theorem refill_restores_thousandCredits :
    ((new 1000 0).consumeAll true [300]).Restores true thousandCredits 1000000000 :=
  (refill_restores_iff true thousandCredits 0 [300] 1000000000 (by decide) (by decide)
    (by simp)).mpr ⟨by decide, by decide, .inr (.inl rfl)⟩

/-- After a second, a stream of the default configuration does not have back the 500 credits
that it has consumed, and one of the conservative configuration has more than its allowance.
After 30 hours the amount is too large for an `i32`. -/
theorem refill_misses_allowance :
    (¬ ((new 2000 0).consumeAll true [500]).Restores true .adaptive 1000000000) ∧
    (¬ (new 500 0).Restores true .conservative 1000000000) ∧
    ¬ ((new 2000 0).consumeAll true [500]).Restores true .adaptive
      (30 * 60 * 60 * 1000000000) := by
  refine ⟨?_, ?_, ?_⟩
  · rintro ⟨-, s', hfill, -, -, hrestored⟩
    have hcred : s'.credits = 1500 := by rw [← congrArg (·.2.credits) hfill]; decide
    exact absurd (hrestored (by decide)) (by rw [hcred]; decide)
  · rintro ⟨-, s', hfill, -, hle, -⟩
    have hcred : s'.credits = 1000 := by rw [← congrArg (·.2.credits) hfill]; decide
    exact absurd hle (by rw [hcred]; decide)
  · rintro ⟨hexact, -⟩
    exact absurd hexact.conversion (by decide)

end StreamCreditState

end Kaelix.Core.Multiplexing
