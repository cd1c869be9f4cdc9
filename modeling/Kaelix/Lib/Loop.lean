import Mathlib.Order.Basic

/-!
# Loops

A loop is a body `σ → σ ⊕ ρ`: from a state it goes on with another state or leaves the loop with a
result.
-/

namespace Kaelix.Lib.Loop

variable {σ ρ : Type} {body : σ → σ ⊕ ρ}

/-- The loop entered at a state ends with a result. -/
inductive Exits (body : σ → σ ⊕ ρ) : σ → ρ → Prop
  | done {s : σ} {r : ρ} (h : body s = .inr r) : Exits body s r
  | next {s s' : σ} {r : ρ} (h : body s = .inl s') (hrest : Exits body s' r) : Exits body s r

/-- The result of a loop that ends within a number of rounds. -/
def iterate (body : σ → σ ⊕ ρ) : Nat → σ → Option ρ
  | 0, _ => none
  | n + 1, s =>
    match body s with
    | .inl s' => iterate body n s'
    | .inr r => some r

variable {n : Nat} {s : σ} {r : ρ}

theorem exits_of_iterate (h : iterate body n s = some r) : Exits body s r := by
  induction n generalizing s with
  | zero => cases h
  | succ n ih =>
    rw [iterate] at h
    split at h
    · next s' hs => exact .next hs (ih h)
    · next r' hr => cases h; exact .done hr

theorem Exits.iterate (h : Exits body s r) : ∃ n, Loop.iterate body n s = some r := by
  induction h with
  | done h => exact ⟨1, by rw [Loop.iterate, h]⟩
  | next h _ ih =>
    obtain ⟨n, hn⟩ := ih
    exact ⟨n + 1, by rw [Loop.iterate, h]; exact hn⟩

section

/-- The loop entered at a state is left in another one. -/
inductive EndsAt (body : σ → σ ⊕ ρ) : σ → σ → Prop
  | here {s : σ} {r : ρ} (h : body s = .inr r) : EndsAt body s s
  | next {s s' t : σ} (h : body s = .inl s') (hrest : EndsAt body s' t) : EndsAt body s t

theorem Exits.endsAt (h : Exits body s r) : ∃ t, EndsAt body s t ∧ body t = .inr r := by
  induction h with
  | @done s r h => exact ⟨s, .here h, h⟩
  | next h _ ih =>
    obtain ⟨t, ht, hr⟩ := ih
    exact ⟨t, .next h ht, hr⟩

theorem EndsAt.unique {t t' : σ} (h : EndsAt body s t) (h' : EndsAt body s t') : t = t' := by
  induction h with
  | here hs =>
    cases h' with
    | here => rfl
    | next hs' => rw [hs] at hs'; cases hs'
  | next hs _ ih =>
    cases h' with
    | here hs' => rw [hs] at hs'; cases hs'
    | next hs' hrest' =>
      rw [hs] at hs'
      exact ih (Sum.inl.inj hs' ▸ hrest')

theorem EndsAt.invariant {I : σ → Prop} {t : σ} (h : EndsAt body s t) (hs : I s)
    (hstep : ∀ s s', body s = .inl s' → I s → I s') : I t := by
  induction h with
  | here => exact hs
  | next hnext _ ih => exact ih (hstep _ _ hnext hs)

end

section

/-- A body that may go wrong, as a loop that ends without a result where it does. -/
def guarded (body : σ → Option (σ ⊕ ρ)) (s : σ) : σ ⊕ Option ρ :=
  match body s with
  | none => .inr none
  | some (.inl s') => .inl s'
  | some (.inr r) => .inr (some r)

theorem Exits.guarded {checked : σ → Option (σ ⊕ ρ)} (h : ∀ s, checked s = some (body s))
    (hexits : Exits body s r) : Exits (guarded checked) s (some r) := by
  induction hexits with
  | done hr => exact .done (by rw [Loop.guarded, h, hr])
  | next hs _ ih => exact .next (by rw [Loop.guarded, h, hs]) ih

end

section

variable {measure : σ → Nat}

private theorem iterate_isSome (h : ∀ s s', body s = .inl s' → measure s' < measure s)
    (hn : measure s < n) : (iterate body n s).isSome := by
  induction n generalizing s with
  | zero => exact absurd hn (Nat.not_lt_zero _)
  | succ n ih =>
    rw [iterate]
    split
    · next s' hs =>
        have := h s s' hs
        exact ih (by omega)
    · rfl

/-- The result of a loop whose measure falls in every round. -/
def run (body : σ → σ ⊕ ρ) (measure : σ → Nat)
    (h : ∀ s s', body s = .inl s' → measure s' < measure s) (s : σ) : ρ :=
  (iterate body (measure s + 1) s).get (iterate_isSome h (Nat.lt_succ_self _))

theorem run_exits (h : ∀ s s', body s = .inl s' → measure s' < measure s) (s : σ) :
    Exits body s (run body measure h s) :=
  exits_of_iterate (Option.some_get _).symm

end

end Kaelix.Lib.Loop
