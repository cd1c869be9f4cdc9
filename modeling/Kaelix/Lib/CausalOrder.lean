import Mathlib.Order.Lattice

/-!
# Causal order and counting clocks

A message-passing run is a sequence of events, each at one process, some of which receive what an
earlier event sent.  With tables that are joined at each receipt, the order of the tables is the
causal order: component `p` of a table is the number of the last event of `p` in the causal past.
-/

namespace Kaelix.Lib

variable {P : Type}

/-- A run of processes that exchange messages.  `source j` is the event whose
message event `j` receives, if it receives one; a message may be received any
number of times. -/
structure MessageRun (P : Type) where
  length : Nat
  proc : Nat → P
  source : Nat → Option Nat
  source_lt : ∀ j, j < length → ∀ i, source j = some i → i < j

variable {i j t : Nat}

namespace MessageRun

variable (r : MessageRun P)

/-- On one process, or from a send to its receipt. -/
def DirectlyBefore (i j : Nat) : Prop :=
  i < j ∧ j < r.length ∧ (r.proc i = r.proc j ∨ r.source j = some i)

/-- A chain of such steps. -/
def HappenedBefore : Nat → Nat → Prop := Relation.TransGen r.DirectlyBefore

variable {r : MessageRun P}

theorem HappenedBefore.lt (h : r.HappenedBefore i j) : i < j := by
  induction h with
  | single h => exact h.1
  | tail _ h ih => exact Nat.lt_trans ih h.1

theorem happenedBefore_of_proc (hij : i < j) (hj : j < r.length) (h : r.proc i = r.proc j) :
    r.HappenedBefore i j :=
  .single ⟨hij, hj, .inl h⟩

/-- After `t` events process `q` knows of event `i`: it is an event of `q` or
happened before one. -/
def Knows (t : Nat) (q : P) (i : Nat) : Prop :=
  ∃ e, e < t ∧ r.proc e = q ∧ (i = e ∨ r.HappenedBefore i e)

theorem Knows.at_event (h : r.Knows t (r.proc j) i) (htj : t ≤ j) (hj : j < r.length) :
    r.Knows (j + 1) (r.proc j) i := by
  obtain ⟨e, he, hproc, hie⟩ := h
  have hej := happenedBefore_of_proc (show e < j by omega) hj hproc
  refine ⟨j, Nat.lt_succ_self j, rfl, .inr ?_⟩
  rcases hie with rfl | hie
  · exact hej
  · exact hie.trans hej

end MessageRun

variable [DecidableEq P]

/-- `clock t q` is the table of process `q` after the first `t` events. -/
structure Clocked (r : MessageRun P) (clock : Nat → P → P → Nat) : Prop where
  zero : ∀ q p, clock 0 q p = 0
  step : ∀ j, j < r.length → ∀ q p, clock (j + 1) q p =
    if q = r.proc j then
      max (clock j q p) ((r.source j).elim 0 fun i => clock (i + 1) (r.proc i) p) +
        if p = q then 1 else 0
    else clock j q p

namespace Clocked

variable {r : MessageRun P} {clock : Nat → P → P → Nat}

variable (h : Clocked r clock)
include h

theorem step_other (hj : j < r.length) {q : P} (hq : q ≠ r.proc j) (p : P) :
    clock (j + 1) q p = clock j q p := by
  rw [h.step j hj, if_neg hq]

theorem step_proc (hj : j < r.length) (p : P) :
    clock (j + 1) (r.proc j) p =
      max (clock j (r.proc j) p)
        ((r.source j).elim 0 fun i => clock (i + 1) (r.proc i) p) +
        if p = r.proc j then 1 else 0 := by
  rw [h.step j hj, if_pos rfl]

theorem mono {s : Nat} (hst : s ≤ t) (ht : t ≤ r.length) (q p : P) :
    clock s q p ≤ clock t q p := by
  induction hst with
  | refl => exact Nat.le_refl _
  | @step t _ ih =>
    refine (ih (by omega)).trans ?_
    by_cases hq : q = r.proc t
    · subst hq
      rw [h.step_proc (by omega)]
      exact (Nat.le_max_left _ _).trans (Nat.le_add_right _ _)
    · rw [h.step_other (by omega) hq]

theorem source_le (hj : j < r.length) (hsrc : r.source j = some i) (p : P) :
    clock (i + 1) (r.proc i) p ≤ clock (j + 1) (r.proc j) p := by
  rw [h.step_proc hj, hsrc]
  exact (Nat.le_max_right _ _).trans (Nat.le_add_right _ _)

private theorem le_own : ∀ t, t ≤ r.length → ∀ q p, clock t q p ≤ clock t p p := by
  intro t
  induction t using Nat.strong_induction_on with
  | _ t ih =>
    intro ht q p
    cases t with
    | zero => rw [h.zero q p]; exact Nat.zero_le _
    | succ t =>
      have hgrow := h.mono (Nat.le_succ t) ht p p
      by_cases hq : q = r.proc t
      · subst hq
        by_cases hp : p = r.proc t
        · rw [hp]
        · rw [h.step_proc (by omega), if_neg hp, Nat.add_zero]
          refine (Nat.max_le.mpr ⟨ih t (by omega) (by omega) _ p, ?_⟩).trans hgrow
          cases hsrc : r.source t with
          | none => exact Nat.zero_le _
          | some i =>
            have hi := r.source_lt t (by omega) i hsrc
            exact (ih (i + 1) (by omega) (by omega) _ p).trans (h.mono (by omega) (by omega) p p)
      · rw [h.step_other (by omega) hq]
        exact (ih t (by omega) (by omega) q p).trans hgrow

theorem own_succ (hj : j < r.length) :
    clock (j + 1) (r.proc j) (r.proc j) = clock j (r.proc j) (r.proc j) + 1 := by
  rw [h.step_proc hj, if_pos rfl, Nat.max_eq_left]
  cases hsrc : r.source j with
  | none => exact Nat.zero_le _
  | some i =>
    have hi := r.source_lt j hj i hsrc
    exact (h.le_own (i + 1) (by omega) _ _).trans (h.mono (by omega) (by omega) _ _)

private theorem own_lt (hij : i < j) (hj : j < r.length) (hproc : r.proc i = r.proc j) :
    clock (i + 1) (r.proc i) (r.proc i) < clock (j + 1) (r.proc i) (r.proc i) := by
  have hle := h.mono (show i + 1 ≤ j by omega) (by omega) (r.proc i) (r.proc i)
  have hsucc := h.own_succ hj
  rw [← hproc] at hsucc
  omega

private theorem knows : ∀ t, t ≤ r.length → ∀ q p, 0 < clock t q p →
    ∃ i, r.Knows t q i ∧ r.proc i = p ∧ clock (i + 1) p p = clock t q p := by
  intro t
  induction t using Nat.strong_induction_on with
  | _ t ih =>
    intro ht q p hpos
    cases t with
    | zero => rw [h.zero] at hpos; omega
    | succ t =>
      have htlt : t < r.length := by omega
      by_cases hq : q = r.proc t
      · subst hq
        by_cases hp : p = r.proc t
        · subst hp
          exact ⟨t, ⟨t, Nat.lt_succ_self t, rfl, .inl rfl⟩, rfl, rfl⟩
        · have hstep := h.step_proc htlt p
          rw [if_neg hp, Nat.add_zero] at hstep
          rw [hstep] at hpos ⊢
          -- the larger of the two joined counters is known to its owner
          rcases Nat.le_total ((r.source t).elim 0 fun i => clock (i + 1) (r.proc i) p)
            (clock t (r.proc t) p) with hle | hle
          · rw [Nat.max_eq_left hle] at hpos ⊢
            obtain ⟨i, hknow, hproc, heq⟩ := ih t (by omega) (by omega) _ p hpos
            exact ⟨i, hknow.at_event (Nat.le_refl t) htlt, hproc, heq⟩
          · rw [Nat.max_eq_right hle] at hpos ⊢
            cases hsrc : r.source t with
            | none => rw [hsrc] at hpos; exact absurd hpos (Nat.lt_irrefl 0)
            | some s =>
              rw [hsrc] at hpos
              have hs := r.source_lt t htlt s hsrc
              obtain ⟨i, ⟨e, he, hproc', hie⟩, hproc, heq⟩ :=
                ih (s + 1) (by omega) (by omega) _ p hpos
              refine ⟨i, ⟨t, Nat.lt_succ_self t, rfl, .inr ?_⟩, hproc, heq⟩
              have hst : r.HappenedBefore s t := .single ⟨hs, htlt, .inr hsrc⟩
              have hes : e = s ∨ r.HappenedBefore e s := by
                rcases Nat.lt_or_ge e s with hlt | hge
                · exact .inr (MessageRun.happenedBefore_of_proc hlt (by omega) hproc')
                · exact .inl (by omega)
              have het : r.HappenedBefore e t := by
                rcases hes with rfl | hes
                · exact hst
                · exact hes.trans hst
              rcases hie with rfl | hie
              · exact het
              · exact hie.trans het
      · rw [h.step_other htlt hq] at hpos ⊢
        obtain ⟨i, ⟨e, he, hrest⟩, hproc, heq⟩ := ih t (by omega) (by omega) q p hpos
        exact ⟨i, ⟨e, by omega, hrest⟩, hproc, heq⟩

private theorem happenedBefore_of_le (hi : i < r.length) (hj : j < r.length) (hne : i ≠ j)
    (hle : clock (i + 1) (r.proc i) (r.proc i) ≤ clock (j + 1) (r.proc j) (r.proc i)) :
    r.HappenedBefore i j := by
  have hpos : 0 < clock (j + 1) (r.proc j) (r.proc i) := by
    have := h.own_succ hi
    omega
  obtain ⟨k, ⟨e, he, hproce, hke⟩, hprock, heq⟩ := h.knows (j + 1) hj _ _ hpos
  have hej : e = j ∨ r.HappenedBefore e j := by
    rcases Nat.lt_or_ge e j with hlt | hge
    · exact .inr (MessageRun.happenedBefore_of_proc hlt hj hproce)
    · exact .inl (by omega)
  have hkj : k = j ∨ r.HappenedBefore k j := by
    rcases hke with rfl | hke
    · exact hej
    · rcases hej with rfl | hej
      · exact .inr hke
      · exact .inr (hke.trans hej)
  have hkle : k ≤ j := by
    rcases hkj with rfl | hkj
    · exact Nat.le_refl _
    · exact hkj.lt.le
  have hik : i ≤ k := by
    by_contra hlt
    have := h.own_lt (show k < i by omega) hi hprock
    rw [hprock] at this
    omega
  rcases Nat.lt_or_eq_of_le hik with hlt | rfl
  · have hik := MessageRun.happenedBefore_of_proc hlt (by omega) hprock.symm
    rcases hkj with rfl | hkj
    · exact hik
    · exact hik.trans hkj
  · rcases hkj with heq | hkj
    · exact absurd heq hne
    · exact hkj

private theorem stamp_le (hij : r.HappenedBefore i j) (p : P) :
    clock (i + 1) (r.proc i) p ≤ clock (j + 1) (r.proc j) p := by
  have hdirect : ∀ {i j}, r.DirectlyBefore i j →
      clock (i + 1) (r.proc i) p ≤ clock (j + 1) (r.proc j) p := by
    rintro i j ⟨hlt, hj, hproc | hsrc⟩
    · rw [hproc]
      exact h.mono (by omega) (by omega) _ p
    · exact h.source_le hj hsrc p
  induction hij with
  | single hd => exact hdirect hd
  | tail _ hd ih => exact ih.trans (hdirect hd)

theorem stamp_le_iff (hi : i < r.length) (hj : j < r.length) (hne : i ≠ j) :
    (∀ p, clock (i + 1) (r.proc i) p ≤ clock (j + 1) (r.proc j) p) ↔
      r.HappenedBefore i j :=
  ⟨fun hle => h.happenedBefore_of_le hi hj hne (hle _), fun hij p => h.stamp_le hij p⟩

end Clocked

end Kaelix.Lib
