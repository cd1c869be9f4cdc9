import Kaelix.Core.Multiplexing.Backpressure

/-!
# Conservation of credits

The credits of a stream are those it had at first, with what was refilled and without what was
consumed (`credits_conserved`).
-/

namespace Kaelix.Core.Multiplexing

open Lib

variable {amount : Int32}

namespace StreamCreditState

variable {s : StreamCreditState}

/-! ### What the calls do -/

theorem topUp_of_fits (overflowChecks : Bool) (hpos : 0 < amount.toInt)
    (hfits : FitsI32 (s.credits.toInt + amount.toInt)) :
    ∃ c : Int32, c.toInt = raiseTo 1000 s.credits.toInt amount.toInt ∧
      s.topUp overflowChecks amount = (.ok (), { s with
        credits := c
        totalRefilled := s.totalRefilled + i32AsU64 (c - s.credits) }) := by
  have hnew : (min (s.credits + amount) defaultInitialCredits).toInt =
      min (s.credits.toInt + amount.toInt) 1000 := by
    rw [toInt_min, toInt_add_of_fits hfits]
    rfl
  have hold := fitsI32_toInt s.credits
  have hactual : FitsI32 ((min (s.credits + amount) defaultInitialCredits).toInt -
      s.credits.toInt) := by
    have hamt := fitsI32_toInt amount
    rw [hnew]
    unfold FitsI32 at *
    omega
  rw [topUp, addI32_of_fits hfits]
  dsimp only
  rw [subI32_of_fits hactual]
  dsimp only
  split
  · next hgr =>
    refine ⟨_, ?_, rfl⟩
    rw [GT.gt, pos_iff_toInt, toInt_sub_of_fits hactual, hnew] at hgr
    rw [hnew, raiseTo]
    omega
  · next hgr =>
    refine ⟨s.credits, ?_, ?_⟩
    · rw [GT.gt, pos_iff_toInt, toInt_sub_of_fits hactual, hnew] at hgr
      rw [raiseTo]
      omega
    · have hzero : i32AsU64 0 = 0 := by decide
      rw [Int32.sub_self, hzero, UInt64.add_zero]

/-- Without overflow checks a sum that does not fit wraps around, and so does the difference
to the old credits: it is the amount again, and the negative sum is stored. -/
theorem credits_topUp_wrapped (hpos : 0 < amount.toInt)
    (hover : 2 ^ 31 ≤ s.credits.toInt + amount.toInt) :
    (s.topUp false amount).2.credits.toInt = s.credits.toInt + amount.toInt - 2 ^ 32 := by
  have hcred := fitsI32_toInt s.credits
  have hamt := fitsI32_toInt amount
  unfold FitsI32 at hcred hamt
  have hsum : (s.credits + amount).toInt = s.credits.toInt + amount.toInt - 2 ^ 32 := by
    rw [Int32.toInt_add, Int.bmod_def]
    omega
  have hmin : min (s.credits + amount) defaultInitialCredits = s.credits + amount := by
    have hlim : defaultInitialCredits.toInt = 1000 := rfl
    rw [← Int32.toInt_inj, toInt_min, hsum, hlim]
    omega
  have hdifference : s.credits + amount - s.credits = amount := by
    rw [Int32.add_comm, Int32.add_sub_cancel]
  have hadd : addI32 false s.credits amount = .ok (s.credits + amount) := rfl
  have hsub : subI32 false (s.credits + amount) s.credits = .ok amount := by
    change Except.ok (s.credits + amount - s.credits) = _
    rw [hdifference]
  rw [topUp, hadd]
  dsimp only
  rw [hmin, hsub]
  dsimp only
  rw [if_pos (pos_iff_toInt.mpr hpos)]
  exact hsum

theorem topUp_of_not_fits (hfits : ¬ FitsI32 (s.credits.toInt + amount.toInt)) :
    s.topUp true amount = (.error ⟨"attempt to add with overflow"⟩, s) := by
  rw [topUp, addI32_of_not_fits hfits]

end StreamCreditState

/-- The calls on the state of a stream. -/
inductive CreditCall where
  | tryConsume (amount : Int32)
  | refillCredits (maxRefillRate : UInt64) (now : Nat)
  | addCredits (threshold amount : Int32)

namespace StreamCreditState

variable (overflowChecks : Bool)

section

variable (s : StreamCreditState)

/-- The state after a call. -/
def step : CreditCall → StreamCreditState
  | .tryConsume amount => (s.tryConsume overflowChecks amount).2
  | .refillCredits maxRefillRate now => (s.refillCredits overflowChecks maxRefillRate now).2
  | .addCredits threshold amount => s.addCredits threshold amount

/-- The amount of the call is not negative, and nothing overflows that is added up. -/
def Fits : CreditCall → Prop
  | .tryConsume amount =>
    0 ≤ amount ∧ (amount ≤ s.credits → s.totalConsumed.toNat + amount.toInt < 2 ^ 64)
  | .refillCredits maxRefillRate now =>
    ∀ amount, refillAmount overflowChecks maxRefillRate (now - s.lastRefill) = .ok amount →
      0 < amount → FitsI32 (s.credits.toInt + amount.toInt) ∧
        s.totalRefilled.toNat + (raiseTo 1000 s.credits.toInt amount.toInt - s.credits.toInt) <
          2 ^ 64
  | .addCredits _ amount =>
    0 ≤ amount ∧ FitsI32 (s.credits.toInt + amount.toInt) ∧
      s.totalRefilled.toNat + amount.toInt < 2 ^ 64

/-- The credits are what was given less what was used. -/
structure Conserved (initial : Int32) (s : StreamCreditState) : Prop where
  balance : s.credits.toInt = initial.toInt + s.totalRefilled.toNat - s.totalConsumed.toNat
  nonneg : 0 ≤ s.credits

/-- A consume succeeds exactly if there are enough credits. -/
def ConsumesWhatIsThere : CreditCall → Prop
  | .tryConsume amount =>
    (∃ left, (s.tryConsume overflowChecks amount).1 = .ok left) ↔ amount ≤ s.credits
  | .refillCredits _ _ | .addCredits _ _ => True

end

theorem conserved_new {initial : Int32} (h : 0 ≤ initial) (now : Nat) :
    Conserved initial (new initial now) where
  balance := by simp [new]
  nonneg := h

variable {maxRefillRate : UInt64}

section

variable {overflowChecks} {initial : Int32} {s : StreamCreditState}

variable {amount : Int32}

theorem tryConsume_of_lt (h : s.credits < amount) :
    s.tryConsume overflowChecks amount =
      (.error (.error (.backpressure
        s!"Insufficient credits: {s.credits} available, {amount} required")), s) := by
  rw [tryConsume]
  dsimp only
  rw [if_pos h, Int32.sub_add_cancel]

theorem tryConsume_of_le (hamt : 0 ≤ amount) (h : amount ≤ s.credits) :
    s.tryConsume overflowChecks amount = (.ok (s.credits - amount), { s with
      credits := s.credits - amount
      totalConsumed := s.totalConsumed + i32AsU64 amount }) := by
  rw [nonneg_iff_toInt] at hamt
  rw [Int32.le_iff_toInt_le] at h
  have hfits : FitsI32 (s.credits.toInt - amount.toInt) := by
    have hcred := fitsI32_toInt s.credits
    unfold FitsI32 at *
    omega
  rw [tryConsume]
  dsimp only
  rw [if_neg (by rw [Int32.lt_iff_toInt_lt]; omega), subI32_of_fits hfits]

theorem consumes_of_fits {call : CreditCall} (hcall : s.Fits overflowChecks call) :
    s.ConsumesWhatIsThere overflowChecks call := by
  cases call with
  | tryConsume =>
    constructor
    · rintro ⟨left, hleft⟩
      by_contra hlt
      rw [tryConsume_of_lt (Int32.not_le.mp hlt)] at hleft
      cases hleft
    · intro hle
      exact ⟨_, by rw [tryConsume_of_le hcall.1 hle]⟩
  | _ => trivial

variable (h : Conserved initial s)
include h

theorem Conserved.tryConsume (hcall : s.Fits overflowChecks (.tryConsume amount)) :
    Conserved initial (s.tryConsume overflowChecks amount).2 := by
  obtain ⟨hamt, htot⟩ := hcall
  by_cases hle : amount ≤ s.credits
  · rw [tryConsume_of_le hamt hle]
    have hsub := Int32.toInt_sub_of_le s.credits amount hamt hle
    rw [nonneg_iff_toInt] at hamt
    have hconsumed := toNat_add_i32AsU64 hamt (htot hle)
    rw [Int32.le_iff_toInt_le] at hle
    refine ⟨?_, ?_⟩
    · dsimp only
      have hbalance := h.balance
      omega
    · rw [nonneg_iff_toInt]
      dsimp only
      omega
  · rw [tryConsume_of_lt (Int32.not_le.mp hle)]
    exact h

theorem Conserved.topUp (hpos : 0 < amount) (hfits : FitsI32 (s.credits.toInt + amount.toInt))
    (htot : s.totalRefilled.toNat +
      (raiseTo 1000 s.credits.toInt amount.toInt - s.credits.toInt) < 2 ^ 64) :
    Conserved initial (s.topUp overflowChecks amount).2 := by
  rw [pos_iff_toInt] at hpos
  obtain ⟨c, hc, htop⟩ := topUp_of_fits overflowChecks hpos hfits
  have hnn := h.nonneg
  rw [nonneg_iff_toInt] at hnn
  have hraise : s.credits.toInt ≤ c.toInt := by
    rw [hc, raiseTo]
    omega
  have hsub : (c - s.credits).toInt = c.toInt - s.credits.toInt :=
    Int32.toInt_sub_of_le c s.credits h.nonneg (Int32.le_iff_toInt_le.mpr hraise)
  have hrefilled := toNat_add_i32AsU64 (n := s.totalRefilled) (a := c - s.credits)
    (by omega) (by rw [hsub, hc]; exact htot)
  rw [htop]
  refine ⟨?_, ?_⟩
  · have hbalance := h.balance
    dsimp only
    omega
  · rw [nonneg_iff_toInt]
    dsimp only
    omega

theorem Conserved.refillCredits {now : Nat}
    (hcall : s.Fits overflowChecks (.refillCredits maxRefillRate now)) :
    Conserved initial (s.refillCredits overflowChecks maxRefillRate now).2 := by
  have hswapped : Conserved initial { s with lastRefill := now } := ⟨h.balance, h.nonneg⟩
  rw [StreamCreditState.refillCredits]
  split
  · exact hswapped
  · next amount hamt =>
    split
    · next hpos =>
      obtain ⟨hfits, htot⟩ := hcall amount hamt hpos
      exact hswapped.topUp hpos hfits htot
    · exact hswapped

theorem Conserved.addCredits {threshold : Int32}
    (hcall : s.Fits overflowChecks (.addCredits threshold amount)) :
    Conserved initial (s.addCredits threshold amount) := by
  obtain ⟨hamt, hfits, htot⟩ := hcall
  have hadd := toInt_add_of_fits hfits
  have hnn := h.nonneg
  rw [nonneg_iff_toInt] at hamt hnn
  have hrefilled := toNat_add_i32AsU64 hamt htot
  refine ⟨?_, ?_⟩
  · have hbalance := h.balance
    change (s.credits + amount).toInt =
      initial.toInt + (s.totalRefilled + i32AsU64 amount).toNat - s.totalConsumed.toNat
    omega
  · rw [nonneg_iff_toInt]
    change 0 ≤ (s.credits + amount).toInt
    omega

theorem Conserved.step {call : CreditCall}
    (hcall : s.Fits overflowChecks call) : Conserved initial (s.step overflowChecks call) := by
  cases call with
  | tryConsume => exact h.tryConsume hcall
  | refillCredits => exact h.refillCredits hcall
  | addCredits => exact h.addCredits hcall

end

/-- Credits are conserved in all sequences of calls that do not overflow, and a consume
succeeds exactly if there are enough. -/
theorem credits_conserved (initial : Int32) (now : Nat) (calls : List CreditCall)
    (hini : 0 ≤ initial)
    (hcalls : EachStep (step overflowChecks) (Fits overflowChecks) (new initial now) calls) :
    Always (step overflowChecks) (Conserved initial) (new initial now) calls ∧
      EachStep (step overflowChecks) (ConsumesWhatIsThere overflowChecks) (new initial now)
        calls :=
  ⟨hcalls.always (conserved_new hini now) fun _ _ h hcall => h.step hcall,
    fun p call hp => consumes_of_fits (hcalls p call hp)⟩

/-- Of 100 credits 70 are consumed, 20 are refilled in a millisecond and 5 added; then there
are too few for another 60. -/
def creditCalls : List CreditCall :=
  [.tryConsume 70, .refillCredits 20000 1000000, .addCredits 200 5, .tryConsume 60]

private theorem fits_creditCalls : EachStep (step true) (Fits true) (new 100 0) creditCalls := by
  simp only [creditCalls, eachStep_cons]
  refine ⟨⟨by decide, fun _ => by decide⟩, ?_, ⟨by decide, by decide, by decide⟩,
    ⟨by decide, fun h => absurd h (by decide)⟩, eachStep_nil⟩
  intro amount hamt _
  cases hamt
  decide

theorem credits_conserved_creditCalls :
    Always (step true) (Conserved 100) (new 100 0) creditCalls ∧
      EachStep (step true) (ConsumesWhatIsThere true) (new 100 0) creditCalls :=
  credits_conserved true 100 0 creditCalls (by decide) fits_creditCalls

/-! ### Refills and polls -/

def pollEach (maxRefillRate : UInt64) :
    StreamCreditState → List Nat → Except Panic Unit × StreamCreditState
  | s, [] => (.ok (), s)
  | s, wait :: waits =>
    match s.refillCredits overflowChecks maxRefillRate (s.lastRefill + wait) with
    | (.error p, s) => (.error p, s)
    | (.ok (), s) => pollEach maxRefillRate s waits

section

variable (maxRefillRate : UInt64)

variable (s : StreamCreditState)

/-- One call at the end gives the same credits as calls after each of the waiting times. -/
def SameCredits (waits : List Nat) : Prop :=
  ∃ once often,
    s.refillCredits overflowChecks maxRefillRate (s.lastRefill + waits.sum) = (.ok (), once) ∧
      s.pollEach overflowChecks maxRefillRate waits = (.ok (), often) ∧
      once.credits = often.credits

def poll (wait : Nat) : StreamCreditState :=
  (s.refillCredits overflowChecks maxRefillRate (s.lastRefill + wait)).2

def amountFor (wait : Nat) : Int32 :=
  u64AsI32 (UInt64.ofNat (wait / 1000000) * maxRefillRate / 1000)

/-- A call after `wait` does not overflow, except that the product wraps around in a build
without checks. -/
def PollFits (wait : Nat) : Prop :=
  (overflowChecks → (UInt64.ofNat (wait / 1000000)).toNat * maxRefillRate.toNat < 2 ^ 64) ∧
    (0 < amountFor maxRefillRate wait →
      FitsI32 (s.credits.toInt + (amountFor maxRefillRate wait).toInt))

/-- What the calls after each of the waiting times give altogether, with no regard to the
limit. -/
def amountPolled (waits : List Nat) : Int :=
  ((waits.map fun wait => (amountFor maxRefillRate wait).toInt).map (max 0)).sum

/-- The credits after a refill in a build without overflow checks: a sum above `i32::MAX` wraps
around and is stored, any other is cut off at the limit. -/
def refillWrapping (credits amount : Int) : Int :=
  if 0 < amount ∧ 2 ^ 31 ≤ credits + amount then credits + amount - 2 ^ 32
  else raiseTo 1000 credits amount

/-- The credits are over the limit, or the amounts add up, or both ways reach the limit. -/
def Lossless (waits : List Nat) : Prop :=
  let total := max 0 (amountFor maxRefillRate waits.sum).toInt
  let polled := amountPolled maxRefillRate waits
  1000 ≤ s.credits.toInt ∨ total = polled ∨
    1000 ≤ s.credits.toInt + total ∧ 1000 ≤ s.credits.toInt + polled

end

section

variable {overflowChecks} {maxRefillRate : UInt64} {s : StreamCreditState} {wait : Nat}
  {waits : List Nat}

theorem refillAmount_of_fits
    (h : overflowChecks → (UInt64.ofNat (wait / 1000000)).toNat * maxRefillRate.toNat < 2 ^ 64) :
    refillAmount overflowChecks maxRefillRate wait = .ok (amountFor maxRefillRate wait) := by
  rw [refillAmount, mulU64_of_fits h]
  rfl

theorem refillCredits_of_fits (h : s.PollFits overflowChecks maxRefillRate wait) :
    ∃ s', s.refillCredits overflowChecks maxRefillRate (s.lastRefill + wait) = (.ok (), s') ∧
      s'.credits.toInt = raiseTo 1000 s.credits.toInt (amountFor maxRefillRate wait).toInt := by
  rw [refillCredits, Nat.add_sub_cancel_left, refillAmount_of_fits h.1]
  dsimp only
  split
  · next hpos =>
    have hfits := h.2 hpos
    rw [GT.gt, pos_iff_toInt] at hpos
    obtain ⟨c, hc, htop⟩ := topUp_of_fits overflowChecks hpos
      (s := { s with lastRefill := s.lastRefill + wait }) hfits
    exact ⟨_, htop, hc⟩
  · next hpos =>
    rw [GT.gt, pos_iff_toInt] at hpos
    refine ⟨_, rfl, ?_⟩
    rw [raiseTo]
    dsimp only
    omega

theorem refillCredits_of_not_fits (h : ¬ s.PollFits true maxRefillRate wait) :
    ∃ p s', s.refillCredits true maxRefillRate (s.lastRefill + wait) = (.error p, s') := by
  rw [refillCredits, Nat.add_sub_cancel_left]
  by_cases hmul : (UInt64.ofNat (wait / 1000000)).toNat * maxRefillRate.toNat < 2 ^ 64
  · rw [refillAmount_of_fits fun _ => hmul]
    dsimp only
    have hadd : ¬ (0 < amountFor maxRefillRate wait →
        FitsI32 (s.credits.toInt + (amountFor maxRefillRate wait).toInt)) :=
      fun hadd => h ⟨fun _ => hmul, hadd⟩
    rw [Classical.not_imp] at hadd
    rw [if_pos hadd.1]
    exact ⟨_, _, topUp_of_not_fits hadd.2⟩
  · rw [refillAmount, mulU64_of_not_fits hmul]
    exact ⟨_, _, rfl⟩

theorem refillCredits_unchecked (s : StreamCreditState) (maxRefillRate : UInt64) (now : Nat) :
    (s.refillCredits false maxRefillRate now).1 = .ok () := by
  have hamt : ∃ amount, refillAmount false maxRefillRate (now - s.lastRefill) = .ok amount :=
    ⟨_, rfl⟩
  obtain ⟨amount, hamt⟩ := hamt
  rw [refillCredits, hamt]
  dsimp only
  split
  · change (if _ then _ else _ : Except Panic Unit × StreamCreditState).1 = _
    split <;> rfl
  · rfl

private theorem refillWrapping_of_fits (h : s.PollFits false maxRefillRate wait) :
    refillWrapping s.credits.toInt (amountFor maxRefillRate wait).toInt =
      raiseTo 1000 s.credits.toInt (amountFor maxRefillRate wait).toInt := by
  refine if_neg ?_
  rintro ⟨hpos, hover⟩
  have hlt := (h.2 (pos_iff_toInt.mpr hpos)).2
  omega

theorem credits_poll_unchecked (s : StreamCreditState) (maxRefillRate : UInt64) (wait : Nat) :
    (s.poll false maxRefillRate wait).credits.toInt =
      refillWrapping s.credits.toInt (amountFor maxRefillRate wait).toInt := by
  by_cases hfits : s.PollFits false maxRefillRate wait
  · obtain ⟨s', hfill, hcred⟩ := refillCredits_of_fits hfits
    rw [refillWrapping_of_fits hfits, poll, hfill, ← hcred]
  · have hwraps : 0 < amountFor maxRefillRate wait ∧
        ¬ FitsI32 (s.credits.toInt + (amountFor maxRefillRate wait).toInt) := by
      simpa [PollFits] using hfits
    have hpos := pos_iff_toInt.mp hwraps.1
    have hover : 2 ^ 31 ≤ s.credits.toInt + (amountFor maxRefillRate wait).toInt := by
      have hcred := fitsI32_toInt s.credits
      have hnot := hwraps.2
      unfold FitsI32 at hcred hnot
      omega
    rw [refillWrapping, if_pos ⟨hpos, hover⟩, poll, refillCredits, Nat.add_sub_cancel_left,
      refillAmount_of_fits (by simp)]
    dsimp only
    rw [if_pos hwraps.1]
    exact credits_topUp_wrapped (s := { s with lastRefill := s.lastRefill + wait }) hpos hover

theorem credits_polls_unchecked (s : StreamCreditState) (maxRefillRate : UInt64)
    (waits : List Nat) :
    (waits.foldl (poll false maxRefillRate) s).credits.toInt =
      (waits.map fun wait => (amountFor maxRefillRate wait).toInt).foldl refillWrapping
        s.credits.toInt := by
  induction waits generalizing s with
  | nil => rfl
  | cons wait waits ih =>
    rw [List.foldl_cons, ih, credits_poll_unchecked]
    rfl

theorem pollEach_cons :
    s.pollEach overflowChecks maxRefillRate (wait :: waits) =
      match s.refillCredits overflowChecks maxRefillRate (s.lastRefill + wait) with
      | (.error p, s) => (.error p, s)
      | (.ok (), s) => s.pollEach overflowChecks maxRefillRate waits :=
  rfl

private theorem pollEach_of_fits
    (h : EachStep (poll overflowChecks maxRefillRate) (PollFits overflowChecks maxRefillRate) s
      waits) :
    ∃ s', s.pollEach overflowChecks maxRefillRate waits = (.ok (), s') ∧
      s'.credits.toInt = raiseTo 1000 s.credits.toInt (amountPolled maxRefillRate waits) := by
  induction waits generalizing s with
  | nil => exact ⟨s, rfl, (raiseTo_zero 1000 _).symm⟩
  | cons wait waits ih =>
    obtain ⟨hwait, hwaits⟩ := eachStep_cons.mp h
    obtain ⟨next, hnext, hcred⟩ := refillCredits_of_fits hwait
    have hpoll : s.poll overflowChecks maxRefillRate wait = next := by rw [poll, hnext]
    rw [hpoll] at hwaits
    obtain ⟨last, hlast, hlastCredits⟩ := ih hwaits
    refine ⟨last, ?_, ?_⟩
    · rw [pollEach_cons, hnext]
      exact hlast
    · have hnn : 0 ≤ amountPolled maxRefillRate waits := sum_max_zero_nonneg _
      rw [hlastCredits, hcred, raiseTo_raiseTo, max_eq_right hnn]
      rfl

private theorem pollEach_of_not_fits
    (h : ¬ EachStep (poll true maxRefillRate) (PollFits true maxRefillRate) s waits) :
    ∃ p s', s.pollEach true maxRefillRate waits = (.error p, s') := by
  induction waits generalizing s with
  | nil => exact absurd eachStep_nil h
  | cons wait waits ih =>
    rw [pollEach_cons]
    by_cases hwait : s.PollFits true maxRefillRate wait
    · obtain ⟨next, hnext, -⟩ := refillCredits_of_fits hwait
      have hpoll : s.poll true maxRefillRate wait = next := by rw [poll, hnext]
      rw [eachStep_cons, hpoll] at h
      rw [hnext]
      exact ih fun hwaits => h ⟨hwait, hwaits⟩
    · obtain ⟨p, s', hpanic⟩ := refillCredits_of_not_fits hwait
      rw [hpanic]
      exact ⟨p, s', rfl⟩

private theorem pollEach_unchecked (s : StreamCreditState) (maxRefillRate : UInt64)
    (waits : List Nat) :
    s.pollEach false maxRefillRate waits =
      (.ok (), waits.foldl (poll false maxRefillRate) s) := by
  induction waits generalizing s with
  | nil => rfl
  | cons wait waits ih =>
    have hok := refillCredits_unchecked s maxRefillRate (s.lastRefill + wait)
    have hpair : s.refillCredits false maxRefillRate (s.lastRefill + wait) =
        (.ok (), s.poll false maxRefillRate wait) := Prod.ext hok rfl
    rw [pollEach_cons, hpair]
    exact ih _

end

/-- Neither the one call nor the calls after each waiting time overflow. -/
def NoOverflow (maxRefillRate : UInt64) (s : StreamCreditState) (waits : List Nat) : Prop :=
  s.PollFits overflowChecks maxRefillRate waits.sum ∧
    EachStep (poll overflowChecks maxRefillRate) (PollFits overflowChecks maxRefillRate) s waits

variable {s : StreamCreditState} {waits : List Nat}

private theorem sameCredits_of_noOverflow (h : s.NoOverflow overflowChecks maxRefillRate waits) :
    s.SameCredits overflowChecks maxRefillRate waits ↔ s.Lossless maxRefillRate waits := by
  obtain ⟨once, honce, honceCredits⟩ := refillCredits_of_fits h.1
  obtain ⟨often, hoften, hoftenCredits⟩ := pollEach_of_fits h.2
  have hsame : s.SameCredits overflowChecks maxRefillRate waits ↔
      once.credits.toInt = often.credits.toInt := by
    rw [Int32.toInt_inj]
    constructor
    · rintro ⟨once', often', honce', hoften', heq⟩
      rw [honce] at honce'
      rw [hoften] at hoften'
      cases honce'
      cases hoften'
      exact heq
    · intro heq
      exact ⟨once, often, honce, hoften, heq⟩
  have hpolled : 0 ≤ amountPolled maxRefillRate waits := sum_max_zero_nonneg _
  rw [hsame, honceCredits, hoftenCredits, ← raiseTo_max,
    raiseTo_eq_raiseTo_iff (le_max_left 0 _) hpolled]
  rfl

private theorem not_sameCredits_of_overflow (h : ¬ s.NoOverflow true maxRefillRate waits) :
    ¬ s.SameCredits true maxRefillRate waits := by
  rintro ⟨once, often, honce, hoften, -⟩
  rw [NoOverflow, not_and_or] at h
  rcases h with hfits | hfits
  · obtain ⟨p, s', hpanic⟩ := refillCredits_of_not_fits hfits
    rw [hpanic] at honce
    cases honce
  · obtain ⟨p, s', hpanic⟩ := pollEach_of_not_fits hfits
    rw [hpanic] at hoften
    cases hoften

private theorem sameCredits_unchecked_iff (maxRefillRate : UInt64) (s : StreamCreditState)
    (waits : List Nat) :
    s.SameCredits false maxRefillRate waits ↔
      refillWrapping s.credits.toInt (amountFor maxRefillRate waits.sum).toInt =
        (waits.map fun wait => (amountFor maxRefillRate wait).toInt).foldl refillWrapping
          s.credits.toInt := by
  have honce : s.refillCredits false maxRefillRate (s.lastRefill + waits.sum) =
      (.ok (), s.poll false maxRefillRate waits.sum) :=
    Prod.ext (refillCredits_unchecked s maxRefillRate _) rfl
  rw [SameCredits, honce, pollEach_unchecked, ← credits_poll_unchecked,
    ← credits_polls_unchecked, Int32.toInt_inj]
  simp

/-- As long as nothing overflows, polling makes no difference exactly if no part of a credit is
lost.  With overflow checks it makes one as soon as something overflows; without them it makes
none exactly if the refills come to the same with every sum wrapped around. -/
theorem same_credits_iff (maxRefillRate : UInt64) (s : StreamCreditState) (waits : List Nat) :
    (∀ overflowChecks, s.NoOverflow overflowChecks maxRefillRate waits →
        (s.SameCredits overflowChecks maxRefillRate waits ↔ s.Lossless maxRefillRate waits)) ∧
      (s.SameCredits true maxRefillRate waits →
        s.NoOverflow true maxRefillRate waits) ∧
      (s.SameCredits false maxRefillRate waits ↔
        refillWrapping s.credits.toInt (amountFor maxRefillRate waits.sum).toInt =
          (waits.map fun wait => (amountFor maxRefillRate wait).toInt).foldl refillWrapping
            s.credits.toInt) :=
  ⟨fun overflowChecks h => sameCredits_of_noOverflow overflowChecks h,
    fun hsame => by_contra fun h => not_sameCredits_of_overflow h hsame,
    sameCredits_unchecked_iff maxRefillRate s waits⟩

theorem SameCredits.credits_eq {overflowChecks : Bool}
    (h : s.SameCredits overflowChecks maxRefillRate waits) :
    (s.refillCredits overflowChecks maxRefillRate (s.lastRefill + waits.sum)).2.credits =
      (s.pollEach overflowChecks maxRefillRate waits).2.credits := by
  obtain ⟨once, often, honce, hoften, heq⟩ := h
  rw [honce, hoften]
  exact heq

/-- With 20000 credits in a second, 20 credits are refilled in a millisecond, and none in two
calls with half a millisecond each. -/
theorem polling_loses_credits :
    ¬ (new 0 0).SameCredits true 20000 [500000, 500000] ∧
      ¬ (new 0 0).SameCredits false 20000 [500000, 500000] :=
  ⟨fun h => absurd h.credits_eq (by decide), fun h => absurd h.credits_eq (by decide)⟩

end StreamCreditState

end Kaelix.Core.Multiplexing
