import Mathlib.Order.Basic

/-!
# Finite runs of a partial step function

A system is a step function `step : σ → ε → Option σ`: the event `e` is enabled in the state `s`
exactly when `step s e` is defined.

* `Run.monotone` lifts a quantity that no step lowers to any two moments.
-/

namespace Kaelix.Lib

variable {σ ε : Type}

/-- A finite run: `length` steps, the state before and after each of them, and
the event that each step takes. -/
structure Run (step : σ → ε → Option σ) where
  length : Nat
  state : Nat → σ
  event : Nat → ε
  step_eq : ∀ i, i < length → step (state i) (event i) = some (state (i + 1))

variable {step : σ → ε → Option σ}

/-- What holds at first and in each step holds throughout. -/
theorem Run.invariant (ρ : Run step) {P : Nat → Prop} (hinit : P 0)
    (hstep : ∀ i, i < ρ.length → P i → P (i + 1)) : ∀ i, i ≤ ρ.length → P i := by
  intro i
  induction i with
  | zero => intro _; exact hinit
  | succ i ih =>
    intro hi
    exact hstep i hi (ih (by omega))

/-- The step may use all earlier states. -/
theorem Run.strongInvariant (ρ : Run step) {P : Nat → Prop} (hinit : P 0)
    (hstep : ∀ i, i < ρ.length → (∀ j, j ≤ i → P j) → P (i + 1)) : ∀ i, i ≤ ρ.length → P i := by
  have key : ∀ i, i ≤ ρ.length → ∀ j, j ≤ i → P j := by
    refine ρ.invariant ?_ ?_
    · intro j hj
      obtain rfl : j = 0 := by omega
      exact hinit
    · intro i hi ih j hj
      rcases Nat.lt_or_ge j (i + 1) with hlt | hge
      · exact ih j (by omega)
      · obtain rfl : j = i + 1 := by omega
        exact hstep i hi ih
  exact fun i hi => key i hi i (Nat.le_refl i)

/-- What no step lowers never falls. -/
theorem Run.monotone {α : Type} [Preorder α] (ρ : Run step) (f : σ → α)
    (hstep : ∀ i, i < ρ.length → f (ρ.state i) ≤ f (ρ.state (i + 1)))
    {i j : Nat} (hij : i ≤ j) (hj : j ≤ ρ.length) : f (ρ.state i) ≤ f (ρ.state j) := by
  induction hij with
  | refl => exact le_refl _
  | step _ ih => exact le_trans (ih (by omega)) (hstep _ hj)

/-! ## Replaying a list of events -/

/-- State reached from `s` by a list of events, if each of them is enabled. -/
def exec (step : σ → ε → Option σ) (s : σ) : List ε → Option σ
  | [] => some s
  | e :: es => (step s e).bind fun s' => exec step s' es

theorem exec_append (s : σ) (xs ys : List ε) :
    exec step s (xs ++ ys) = (exec step s xs).bind fun s' => exec step s' ys := by
  induction xs generalizing s with
  | nil => rfl
  | cons x xs ih =>
    simp only [List.cons_append, exec]
    cases step s x with
    | none => rfl
    | some s' => exact ih s'

/-- What every step keeps, the execution keeps. -/
theorem exec_invariant {P : σ → Prop} (hstep : ∀ s e s', P s → step s e = some s' → P s')
    {s s' : σ} {es : List ε} (hs : P s) (h : exec step s es = some s') : P s' := by
  induction es generalizing s with
  | nil =>
    cases h
    exact hs
  | cons e es ih =>
    obtain ⟨s₁, hs₁, hrest⟩ := Option.bind_eq_some_iff.mp h
    exact ih (hstep s e s₁ hs hs₁) hrest

private theorem exec_take_succ (s : σ) (es : List ε) {i : Nat} (hi : i < es.length) :
    exec step s (es.take (i + 1)) = (exec step s (es.take i)).bind fun s' => step s' es[i] := by
  rw [List.take_succ_eq_append_getElem hi, exec_append]
  congr 1
  funext s'
  simp only [exec]
  cases step s' es[i] <;> rfl

private theorem exec_take_isSome (s : σ) (es : List ε) (h : (exec step s es).isSome)
    (i : Nat) : (exec step s (es.take i)).isSome := by
  rw [← List.take_append_drop i es, exec_append] at h
  cases hx : exec step s (es.take i) with
  | none => rw [hx] at h; simp at h
  | some => rfl

/-- The run that takes the events of a list. -/
def Run.ofEvents [Inhabited ε] (step : σ → ε → Option σ) (s : σ) (es : List ε)
    (h : (exec step s es).isSome) : Run step where
  length := es.length
  state i := (exec step s (es.take i)).getD s
  event i := es.getD i default
  step_eq := by
    intro i hi
    have hnext := exec_take_isSome s es h (i + 1)
    rw [exec_take_succ s es hi] at hnext ⊢
    obtain ⟨s', hs'⟩ := Option.isSome_iff_exists.mp (exec_take_isSome s es h i)
    rw [hs', Option.bind_some] at hnext ⊢
    obtain ⟨s'', hs''⟩ := Option.isSome_iff_exists.mp hnext
    simp [List.getD_eq_getElem?_getD, List.getElem?_eq_getElem hi, hs'']

end Kaelix.Lib
