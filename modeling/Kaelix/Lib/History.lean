import Mathlib.Data.List.Infix

/-!
# Histories of a total step function

A history is a list of events, and `es.foldl step s` the state it leads to.  Where events are calls
that are answered, two systems that answer alike give the same `replies`.
-/

namespace Kaelix.Lib

variable {σ ε : Type}

/-- `P` holds at every moment of the history `es` from `s`. -/
def Always (step : σ → ε → σ) (P : σ → Prop) (s : σ) (es : List ε) : Prop :=
  ∀ h, h <+: es → P (h.foldl step s)

/-- Every event of the history `es` from `s` meets `C` in the state it finds. -/
def EachStep (step : σ → ε → σ) (C : σ → ε → Prop) (s : σ) (es : List ε) : Prop :=
  ∀ h e, h ++ [e] <+: es → C (h.foldl step s) e

variable {step : σ → ε → σ} {P : σ → Prop} {C : σ → ε → Prop} {s : σ}

theorem always_nil : Always step P s [] ↔ P s := by
  constructor
  · intro h
    exact h [] (List.prefix_refl _)
  · intro hs h hh
    rw [List.prefix_nil.mp hh]
    exact hs

variable {es : List ε}

theorem always_cons {e : ε} : Always step P s (e :: es) ↔ P s ∧ Always step P (step s e) es := by
  constructor
  · intro h
    refine ⟨h [] (List.nil_prefix), fun k hk => ?_⟩
    exact h (e :: k) (List.cons_prefix_cons.mpr ⟨rfl, hk⟩)
  · rintro ⟨hs, hrest⟩ k hk
    cases k with
    | nil => exact hs
    | cons e' k =>
      obtain ⟨rfl, hrec⟩ := List.cons_prefix_cons.mp hk
      exact hrest k hrec

theorem eachStep_nil : EachStep step C s [] := by
  intro h e hh
  have := hh.length_le
  simp at this

theorem eachStep_cons {e : ε} :
    EachStep step C s (e :: es) ↔ C s e ∧ EachStep step C (step s e) es := by
  constructor
  · intro h
    refine ⟨h [] e (by simp), fun k e' hk => ?_⟩
    exact h (e :: k) e' (List.cons_prefix_cons.mpr ⟨rfl, hk⟩)
  · rintro ⟨hs, hrest⟩ k e' hk
    cases k with
    | nil =>
      obtain ⟨rfl, -⟩ := List.cons_prefix_cons.mp hk
      exact hs
    | cons e'' k =>
      obtain ⟨rfl, hrec⟩ := List.cons_prefix_cons.mp hk
      exact hrest k e' hrec

variable {es fs : List ε}

theorem eachStep_append :
    EachStep step C s (es ++ fs) ↔
      EachStep step C s es ∧ EachStep step C (es.foldl step s) fs := by
  induction es generalizing s with
  | nil => exact (and_iff_right eachStep_nil).symm
  | cons e es ih =>
    rw [List.cons_append, eachStep_cons, ih, eachStep_cons, and_assoc, List.foldl_cons]

theorem foldl_concat (es fs : List ε) : fs.foldl (fun es e => es ++ [e]) es = es ++ fs := by
  induction fs generalizing es with
  | nil => simp
  | cons f fs ih => simp [ih]

theorem Always.last (h : Always step P s es) : P (es.foldl step s) := h es (List.prefix_refl _)

theorem always_of_step (hs : P s) (hstep : ∀ t e, P t → P (step t e)) : Always step P s es := by
  induction es generalizing s with
  | nil => exact always_nil.mpr hs
  | cons e es ih => exact always_cons.mpr ⟨hs, ih (hstep s e hs)⟩

theorem EachStep.always (h : EachStep step C s es) (hs : P s)
    (hstep : ∀ t e, P t → C t e → P (step t e)) : Always step P s es := by
  induction es generalizing s with
  | nil => exact always_nil.mpr hs
  | cons e es ih =>
    obtain ⟨hC, hrest⟩ := eachStep_cons.mp h
    exact always_cons.mpr ⟨hs, ih hrest (hstep s e hs hC)⟩

variable {I : σ → Prop}

theorem always_iff_eachStep (hI : I s) (hs : P s)
    (hkeep : ∀ t e, I t → P t → P (step t e) → I (step t e))
    (hstep : ∀ t e, I t → P t → (P (step t e) ↔ C t e)) :
    Always step P s es ↔ EachStep step C s es := by
  induction es generalizing s with
  | nil => exact iff_of_true (always_nil.mpr hs) eachStep_nil
  | cons e es ih =>
    rw [always_cons, eachStep_cons, ← hstep s e hI hs]
    constructor
    · rintro ⟨-, hrest⟩
      have hnext : P (step s e) := hrest [] (List.nil_prefix)
      exact ⟨hnext, (ih (hkeep s e hI hs hnext) hnext).mp hrest⟩
    · rintro ⟨hnext, hrest⟩
      exact ⟨hs, (ih (hkeep s e hI hs hnext) hnext).mpr hrest⟩

theorem EachStep.mono {D : σ → ε → Prop} (h : EachStep step C s es) (hI : I s)
    (hstep : ∀ t e, I t → C t e → D t e) (hkeep : ∀ t e, I t → C t e → I (step t e)) :
    EachStep step D s es := by
  induction es generalizing s with
  | nil => exact eachStep_nil
  | cons e es ih =>
    obtain ⟨hC, hrest⟩ := eachStep_cons.mp h
    exact eachStep_cons.mpr ⟨hstep s e hI hC, ih hrest (hkeep s e hI hC)⟩

theorem eachStep_congr {D : σ → ε → Prop} (hI : I s) (hstep : ∀ t e, I t → (C t e ↔ D t e))
    (hkeep : ∀ t e, I t → C t e → I (step t e)) :
    EachStep step C s es ↔ EachStep step D s es := by
  constructor
  · intro h
    exact h.mono hI (fun t e ht => (hstep t e ht).mp) hkeep
  · intro h
    exact h.mono hI (fun t e ht => (hstep t e ht).mpr)
      fun t e ht hD => hkeep t e ht ((hstep t e ht).mpr hD)

/-! ## Two moments -/

/-- In the history `es` from `s` the event `e₁` finds the state `t₁`; then come the events
`mid`, and `e₂`, which finds `t₂`. -/
structure Later (step : σ → ε → σ) (s : σ) (es : List ε) (t₁ : σ) (e₁ : ε) (mid : List ε)
    (t₂ : σ) (e₂ : ε) : Prop where
  first : ∃ h, h ++ e₁ :: (mid ++ [e₂]) <+: es ∧ h.foldl step s = t₁
  second : mid.foldl step (step t₁ e₁) = t₂

/-! ## What was done and not undone -/

/-- Some event meets `p`, and every later one meets `q`. -/
def Since (es : List ε) (p q : ε → Prop) : Prop :=
  ∃ before e after, es = before ++ e :: after ∧ p e ∧ ∀ later ∈ after, q later

variable {p q : ε → Prop}

theorem not_since_nil : ¬ Since [] p q := by
  simp [Since]

theorem since_concat {e : ε} : Since (es ++ [e]) p q ↔ p e ∨ q e ∧ Since es p q := by
  constructor
  · rintro ⟨before, x, after, heq, hp, hq⟩
    rcases List.eq_nil_or_concat after with rfl | ⟨after, last, rfl⟩
    · have hlast := (List.append_inj' heq rfl).2
      rw [List.singleton_inj.mp hlast]
      exact .inl hp
    · rw [List.concat_eq_append, ← List.cons_append, ← List.append_assoc] at heq
      obtain ⟨hes, hlast⟩ := List.append_inj' heq rfl
      rw [List.singleton_inj.mp hlast]
      simp at hq
      exact .inr ⟨hq last (.inr rfl), before, x, after, hes, hp, fun y hy => hq y (.inl hy)⟩
  · rintro (hp | ⟨hq, before, x, after, rfl, hp, hafter⟩)
    · exact ⟨es, e, [], rfl, hp, by simp⟩
    · refine ⟨before, x, after ++ [e], by simp, hp, ?_⟩
      simpa [or_imp, forall_and] using ⟨hafter, hq⟩

theorem since_append (hq : ∀ e ∈ fs, q e) :
    Since (es ++ fs) p q ↔ (∃ e ∈ fs, p e) ∨ Since es p q := by
  induction fs generalizing es with
  | nil => simp
  | cons f fs ih =>
    have hf : q f := hq f List.mem_cons_self
    rw [List.append_cons, ih fun e he => hq e (List.mem_cons_of_mem _ he), since_concat]
    simp only [List.exists_mem_cons_iff, hf, true_and]
    exact or_left_comm.trans or_assoc.symm

/-! ### Calls and replies

A system is a function `σ → ε → ρ × σ`: in a state, a call is answered by a reply and leads to
another state. -/

variable {τ ρ : Type}

/-- The answers to a list of calls. -/
def replies (f : σ → ε → ρ × σ) : σ → List ε → List ρ
  | _, [] => []
  | s, e :: es => (f s e).1 :: replies f (f s e).2 es

theorem length_replies (f : σ → ε → ρ × σ) (s : σ) (es : List ε) :
    (replies f s es).length = es.length := by
  induction es generalizing s with
  | nil => rfl
  | cons e es ih => rw [replies, List.length_cons, ih, List.length_cons]

/-- Calls in related states are answered alike, and lead to related states. -/
structure Simulation (f : σ → ε → ρ × σ) (g : τ → ε → ρ × τ) (R : σ → τ → Prop) : Prop where
  reply : ∀ s t e, R s t → (f s e).1 = (g t e).1
  state : ∀ s t e, R s t → R (f s e).2 (g t e).2

variable {f : σ → ε → ρ × σ} {g : τ → ε → ρ × τ} {R : σ → τ → Prop}

theorem Simulation.replies_eq (h : Simulation f g R) {s : σ} {t : τ} (hst : R s t)
    (es : List ε) : replies f s es = replies g t es := by
  induction es generalizing s t with
  | nil => rfl
  | cons e es ih => rw [replies, replies, h.reply s t e hst, ih (h.state s t e hst)]

/-- Two systems that take the same calls. -/
def together (f : σ → ε → ρ × σ) (g : τ → ε → ρ × τ) (p : σ × τ) (e : ε) : σ × τ :=
  ((f p.1 e).2, (g p.2 e).2)

end Kaelix.Lib
