import Mathlib.Algebra.GroupWithZero.Nat
import Mathlib.Algebra.Order.BigOperators.Group.List
import Mathlib.Algebra.Order.Group.Nat

/-!
# Interleavings of threads

Threads share a state.  A schedule names the thread that takes the next step, and gives the step
an input from outside, such as the time.  A thread that is not ready, because another one holds a
lock, does nothing in its turn.
-/

namespace Kaelix.Lib.Threads

/-- A shared state, and the points at which the threads are. -/
structure Concurrent (σ π : Type) where
  shared : σ
  threads : List π

variable {σ π τ : Type}

section

variable (ready : List π → π → Bool) (advance : τ → π → σ → π × σ)

/-- A turn of a thread, if it is ready. -/
def step (s : Concurrent σ π) (e : Nat × τ) : Concurrent σ π :=
  match s.threads[e.1]? with
  | none => s
  | some p =>
    if ready s.threads p then
      { shared := (advance e.2 p s.shared).2
        threads := s.threads.set e.1 (advance e.2 p s.shared).1 }
    else s

variable {ready advance}

theorem step_of_ready {s : Concurrent σ π} {e : Nat × τ} {p : π}
    (hget : s.threads[e.1]? = some p) (hready : ready s.threads p = true) :
    step ready advance s e =
      { shared := (advance e.2 p s.shared).2
        threads := s.threads.set e.1 (advance e.2 p s.shared).1 } := by
  rw [step, hget]
  exact if_pos hready

theorem step_cases (s : Concurrent σ π) (e : Nat × τ) :
    (step ready advance s e = s ∧
        ∀ p, s.threads[e.1]? = some p → ready s.threads p = false) ∨
      ∃ p, s.threads[e.1]? = some p ∧ ready s.threads p = true ∧
        step ready advance s e =
          { shared := (advance e.2 p s.shared).2
            threads := s.threads.set e.1 (advance e.2 p s.shared).1 } := by
  cases hget : s.threads[e.1]? with
  | none => exact .inl ⟨by rw [step, hget], fun p hp => by cases hp⟩
  | some p =>
    cases hready : ready s.threads p with
    | false =>
      refine .inl ⟨?_, fun q hq => ?_⟩
      · rw [step, hget]
        simp [hready]
      · rw [← Option.some.inj hq]
        exact hready
    | true => exact .inr ⟨p, rfl, hready, step_of_ready hget hready⟩

end

/-! ### One thread among others -/

section

variable {threads : List π} {i : Nat} {p p' : π}

theorem getElem?_set_cases {j : Nat} {q : π} (h : (threads.set i p')[j]? = some q) :
    (j = i ∧ q = p') ∨ (j ≠ i ∧ threads[j]? = some q) := by
  by_cases hji : j = i
  · subst hji
    rw [List.getElem?_set_self'] at h
    obtain ⟨_, -, rfl⟩ := Option.map_eq_some_iff.mp h
    exact .inl ⟨rfl, rfl⟩
  · rw [List.getElem?_set_ne (Ne.symm hji)] at h
    exact .inr ⟨hji, h⟩

theorem forall_mem_set_iff {P : π → Prop} (h : threads[i]? = some p) :
    (∀ q ∈ threads.set i p', P q) ↔ P p' ∧ ∀ j q, j ≠ i → threads[j]? = some q → P q := by
  constructor
  · intro hall
    refine ⟨hall p' (List.mem_set (List.getElem?_eq_some_iff.mp h).1 p'), fun j q hj hq => ?_⟩
    refine hall q (List.mem_of_getElem? (i := j) ?_)
    rwa [List.getElem?_set_ne hj.symm]
  · rintro ⟨hown, hoths⟩ q hq
    obtain ⟨j, hj⟩ := List.mem_iff_getElem?.mp hq
    obtain ⟨-, rfl⟩ | ⟨hji, hq⟩ := getElem?_set_cases hj
    · exact hown
    · exact hoths j q hji hq

/-- A thread that keeps its key changes nothing of the keys. -/
theorem filterMap_set {κ : Type} {key : π → Option κ} (h : threads[i]? = some p)
    (hkey : key p' = key p) : (threads.set i p').filterMap key = threads.filterMap key := by
  induction threads generalizing i with
  | nil => rfl
  | cons q threads ih =>
    cases i with
    | zero =>
      obtain rfl : q = p := Option.some.inj h
      rw [List.set_cons_zero, List.filterMap_cons, List.filterMap_cons, hkey]
    | succ => rw [List.set_cons_succ, List.filterMap_cons, List.filterMap_cons, ih h]

/-- No two threads have the same key. -/
def Distinct {κ : Type} (key : π → Option κ) (threads : List π) : Prop :=
  ∀ (i j : Nat) (p q : π) (k : κ), threads[i]? = some p → threads[j]? = some q →
    key p = some k → key q = some k → i = j

variable {κ : Type} {key : π → Option κ}

theorem Distinct.set (h : Distinct key threads)
    (hoth : ∀ k, key p' = some k → ∀ j q, j ≠ i → threads[j]? = some q → key q ≠ some k) :
    Distinct key (threads.set i p') := by
  intro a b q r k ha hb hkq hkr
  obtain ⟨rfl, rfl⟩ | ⟨hai, hq⟩ := getElem?_set_cases ha
  · obtain ⟨rfl, rfl⟩ | ⟨hbi, hr⟩ := getElem?_set_cases hb
    · rfl
    · exact absurd hkr (hoth k hkq b r hbi hr)
  · obtain ⟨rfl, rfl⟩ | ⟨hbi, hr⟩ := getElem?_set_cases hb
    · exact absurd hkq (hoth k hkr a q hai hq)
    · exact h a b q r k hq hr hkq hkr

theorem Distinct.nodup_filterMap (h : Distinct key threads) : (threads.filterMap key).Nodup := by
  rw [List.Nodup, List.pairwise_filterMap, List.pairwise_iff_getElem]
  intro i j hi hj hij k hk k' hk' hsame
  subst hsame
  have heq := h i j _ _ k (List.getElem?_eq_getElem hi) (List.getElem?_eq_getElem hj) hk hk'
  omega

/-! ### Sums over the threads -/

variable (f : π → Nat)

/-- The sum of a quantity over the threads. -/
def total (threads : List π) : Nat := (threads.map f).sum

theorem total_cons (p : π) (threads : List π) :
    total f (p :: threads) = f p + total f threads := by
  rw [total, List.map_cons, List.sum_cons, total]

theorem total_set (h : threads[i]? = some p) (p' : π) :
    total f (threads.set i p') + f p = total f threads + f p' := by
  induction threads generalizing i with
  | nil => cases h
  | cons q threads ih =>
    cases i with
    | zero =>
      obtain rfl : q = p := Option.some.inj h
      rw [List.set_cons_zero, total_cons, total_cons]
      omega
    | succ =>
      have hrest := ih h
      rw [List.set_cons_succ, total_cons, total_cons]
      omega

theorem le_total (h : threads[i]? = some p) : f p ≤ total f threads :=
  List.le_sum_of_mem (List.mem_map_of_mem (List.mem_of_getElem? h))

variable {f : π → Nat}

theorem total_eq_length (h : ∀ p ∈ threads, f p = (key p).toList.length) :
    total f threads = (threads.filterMap key).length := by
  induction threads with
  | nil => rfl
  | cons p threads ih =>
    have hp := h p List.mem_cons_self
    have hrest := ih fun q hq => h q (List.mem_cons_of_mem _ hq)
    rw [total_cons, hp, hrest]
    cases hkey : key p with
    | none =>
      rw [List.filterMap_cons_none hkey]
      exact Nat.zero_add _
    | some =>
      rw [List.filterMap_cons_some hkey, List.length_cons]
      exact Nat.add_comm _ _

theorem total_eq_count [DecidableEq κ] {k : κ}
    (h : ∀ p ∈ threads, f p = if key p = some k then 1 else 0) :
    total f threads = (threads.filterMap key).count k := by
  induction threads with
  | nil => rfl
  | cons p threads ih =>
    have hp := h p List.mem_cons_self
    have hrest := ih fun q hq => h q (List.mem_cons_of_mem _ hq)
    rw [total_cons, hp, hrest]
    cases hkey : key p with
    | none =>
      rw [List.filterMap_cons_none hkey, if_neg (by simp), Nat.zero_add]
    | some =>
      rw [List.filterMap_cons_some hkey, List.count_cons, Nat.add_comm]
      simp only [Option.some.injEq, beq_iff_eq]

theorem total_eq_zero (h : ∀ p ∈ threads, f p = 0) : total f threads = 0 := by
  rw [total, List.sum_eq_zero_iff]
  intro n hn
  obtain ⟨p, hp, rfl⟩ := List.mem_map.mp hn
  exact h p hp

end

/-! ### Assertions about each thread -/

/-- The condition holds of every thread. -/
def Each (L : σ → π → Prop) (s : Concurrent σ π) : Prop :=
  ∀ (i : Nat) (p : π), s.threads[i]? = some p → L s.shared p

theorem Each.set {L : σ → π → Prop} {G : σ → σ → Prop} {shared shared' : σ}
    {threads : List π} {i : Nat} {p' : π} (h : Each L { shared, threads })
    (hguarantee : G shared shared') (hown : L shared' p')
    (hrely : ∀ j q, j ≠ i → threads[j]? = some q → L shared q → G shared shared' →
      L shared' q) : Each L { shared := shared', threads := threads.set i p' } := by
  intro j q hq
  obtain ⟨rfl, rfl⟩ | ⟨hji, hq⟩ := getElem?_set_cases hq
  · exact hown
  · exact hrely j q hji hq (h j q hq) hguarantee

end Kaelix.Lib.Threads
