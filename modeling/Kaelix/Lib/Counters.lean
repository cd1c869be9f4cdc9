import Kaelix.Lib.HashMap

/-!
# Sparse tables of counters

A finite map to natural numbers stands for a table with a counter for every key: a key that is not
in the map, or is there with `0`, reads as `0`.
-/

namespace Kaelix.Lib

/-- A counter for every key. -/
abbrev Counters (K : Type) := HashMap K Nat

namespace Counters

variable {K : Type} [DecidableEq K]

/-- The counter of a key. -/
def get (m : Counters K) (k : K) : Nat := (m.lookup k).getD 0

/-- No counter is above that of the other table. -/
def Below (m m' : Counters K) : Prop := ∀ k, get m k ≤ get m' k

/-- A counter raised to at least this value. -/
def raise (m : Counters K) (entry : Sigma fun _ : K => Nat) : Counters K :=
  m.insert entry.1 (max (get m entry.1) entry.2)

/-- The entries of the second map raise the counters of the first. -/
def merge (m m' : Counters K) : Counters K := m'.entries.foldl raise m

private theorem get_raise (m : Counters K) (entry : Sigma fun _ : K => Nat) (k : K) :
    get (raise m entry) k = if k = entry.1 then max (get m k) entry.2 else get m k := by
  rw [raise, get, HashMap.lookup_insert_eq]
  by_cases hk : k = entry.1
  · rw [if_pos hk, if_pos hk, hk]
    rfl
  · rw [if_neg hk, if_neg hk]
    rfl

private theorem get_foldl_raise (k : K) (es : List (Sigma fun _ : K => Nat)) :
    es.NodupKeys → ∀ m : Counters K,
      get (es.foldl raise m) k = max (get m k) ((List.dlookup k es).getD 0) := by
  induction es with
  | nil =>
    intro _ m
    exact (Nat.max_zero _).symm
  | cons e es ih =>
    intro hnd m
    obtain ⟨hnot, htail⟩ := List.nodupKeys_cons.mp hnd
    rw [List.foldl_cons, ih htail, get_raise]
    by_cases hk : k = e.1
    · subst hk
      have hnone : List.dlookup e.1 es = none := List.dlookup_eq_none.mpr hnot
      rw [if_pos rfl, hnone]
      cases e
      simp
    · rw [if_neg hk, List.dlookup_cons_ne es e hk]

variable (m m' : Counters K)

theorem get_merge (k : K) : get (merge m m') k = max (get m k) (get m' k) :=
  get_foldl_raise k m'.entries m'.nodupKeys m

theorem mem_keys_of_pos {m : Counters K} {k : K} (h : 0 < get m k) : k ∈ m.keys := by
  rw [← AList.mem_keys, ← AList.lookup_isSome]
  unfold get at h
  cases hl : m.lookup k with
  | none => rw [hl] at h; exact absurd h (Nat.lt_irrefl 0)
  | some => rfl

theorem below_iff_entries : Below m m' ↔ ∀ e ∈ m.entries, e.2 ≤ get m' e.1 := by
  have hent : ∀ e ∈ m.entries, get m e.1 = e.2 := by
    intro e he
    rw [get, AList.mem_lookup_iff.mpr he]
    rfl
  constructor
  · intro h e he
    rw [← hent e he]
    exact h e.1
  · intro h k
    rcases Nat.eq_zero_or_pos (get m k) with hzero | hpos
    · omega
    · obtain ⟨e, he, rfl⟩ := List.mem_map.mp (mem_keys_of_pos hpos)
      rw [hent e he]
      exact h e he

theorem Below.trans {m₁ m₂ m₃ : Counters K} (h : Below m₁ m₂) (h' : Below m₂ m₃) :
    Below m₁ m₃ := fun k => (h k).trans (h' k)

theorem below_antisymm_iff : Below m m' ∧ Below m' m ↔ ∀ k, get m k = get m' k := by
  constructor
  · rintro ⟨h, h'⟩ k
    exact Nat.le_antisymm (h k) (h' k)
  · intro h
    exact ⟨fun k => Nat.le_of_eq (h k), fun k => Nat.le_of_eq (h k).symm⟩

theorem merge_below_iff (m m' c : Counters K) : Below (merge m m') c ↔ Below m c ∧ Below m' c := by
  simp only [Below, get_merge, Nat.max_le, forall_and]

theorem below_merge_left : Below m (merge m m') := by
  intro k
  rw [get_merge]
  exact Nat.le_max_left _ _

theorem below_merge_right : Below m' (merge m m') := by
  intro k
  rw [get_merge]
  exact Nat.le_max_right _ _

end Counters

end Kaelix.Lib
