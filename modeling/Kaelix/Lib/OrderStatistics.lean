import Kaelix.Lib.Pointwise
import Mathlib.Data.Finset.Max

/-!
# Ranks, histograms and stable sorts

`NearestRank xs p x` says that `x` is the smallest of `xs` with at least `p` percent of them at or
below it.

`StablySorted key xs ys` says that `ys` has the members of `xs` in ascending order of their
keys, and those with the same key in the order of `xs`.  A list stays so if another member is
added and it is sorted again by a stable sort (`StablySorted.concat`), and if members are taken
out (`StablySorted.filter`).
-/

namespace Kaelix.Lib

variable {α : Type}

section

variable [LinearOrder α]

/-- How many are at most `x`. -/
def atMost (xs : List α) (x : α) : Nat := xs.countP (· ≤ x)

/-- `x` is the smallest with at least `p` percent at or below it. -/
structure NearestRank (xs : List α) (p : Nat) (x : α) : Prop where
  mem : x ∈ xs
  enough : p * xs.length ≤ 100 * atMost xs x
  least : ∀ y ∈ xs, p * xs.length ≤ 100 * atMost xs y → x ≤ y

variable {xs : List α}

theorem exists_greatest (hne : xs ≠ []) : ∃ m ∈ xs, ∀ y ∈ xs, y ≤ m := by
  obtain ⟨m, hm, hmax⟩ := xs.toFinset.exists_max_image id (by simpa using hne)
  exact ⟨m, by simpa using hm, fun y hy => hmax y (by simpa using hy)⟩

private theorem exists_least (hne : xs ≠ []) : ∃ m ∈ xs, ∀ y ∈ xs, m ≤ y := by
  obtain ⟨m, hm, hmin⟩ := xs.toFinset.exists_min_image id (by simpa using hne)
  exact ⟨m, by simpa using hm, fun y hy => hmin y (by simpa using hy)⟩

theorem exists_nearestRank (hne : xs ≠ []) {p : Nat} (hp : p ≤ 100) :
    ∃ x, NearestRank xs p x := by
  -- the greatest of all has everything at or below it
  obtain ⟨top, htop, hgst⟩ := exists_greatest hne
  have hall : atMost xs top = xs.length := by simpa [atMost] using hgst
  let ranked := xs.filter fun x => p * xs.length ≤ 100 * atMost xs x
  have hranked : ranked ≠ [] := by
    apply List.ne_nil_of_mem (a := top)
    simpa [ranked, htop, hall] using Nat.mul_le_mul_right _ hp
  obtain ⟨x, hx, hleast⟩ := exists_least hranked
  simp only [ranked, List.mem_filter, decide_eq_true_eq] at hx hleast
  exact ⟨x, hx.1, hx.2, fun y hy henough => hleast y ⟨hy, henough⟩⟩

theorem NearestRank.class {p : Nat} {x : α} (h : NearestRank xs p x) (hp : 0 < p) {f : α → Nat}
    (hf : Monotone f) :
    p * xs.length ≤ 100 * atMost (xs.map f) (f x) ∧
      ∀ i < f x, 100 * atMost (xs.map f) i < p * xs.length := by
  have hlen : 0 < xs.length := List.length_pos_of_mem h.mem
  constructor
  · have hcnt : atMost xs x ≤ atMost (xs.map f) (f x) := by
      rw [atMost, atMost, List.countP_map]
      apply List.countP_mono_left
      intro y _ hy
      simpa using hf (of_decide_eq_true hy)
    exact h.enough.trans (Nat.mul_le_mul_left 100 hcnt)
  · intro i hi
    by_contra hcnt
    rw [Nat.not_lt] at hcnt
    -- the greatest sample of the lower classes would have been enough
    have hlower : (xs.filter fun y => f y ≤ i) ≠ [] := by
      intro hnil
      have hzero : atMost (xs.map f) i = 0 := by
        simpa [atMost, List.countP_map, List.countP_eq_length_filter] using hnil
      have := Nat.mul_pos hp hlen
      omega
    obtain ⟨y, hy, hgst⟩ := exists_greatest hlower
    simp only [List.mem_filter, decide_eq_true_eq] at hy hgst
    have hle : atMost (xs.map f) i ≤ atMost xs y := by
      rw [atMost, atMost, List.countP_map]
      apply List.countP_mono_left
      intro z hz hzi
      simpa using hgst z ⟨hz, by simpa using hzi⟩
    have hxy := h.least y hy.1 (hcnt.trans (Nat.mul_le_mul_left 100 hle))
    exact absurd (Nat.lt_of_lt_of_le hi (hf hxy)) (Nat.not_lt.mpr hy.2)

end

/-! ## Histograms -/

/-- How often each of the first `k` numbers occurs. -/
def histogram (k : Nat) (xs : List Nat) : List Nat := (List.range k).map xs.count

theorem length_histogram (k : Nat) (xs : List Nat) : (histogram k xs).length = k := by
  simp [histogram]

theorem histogram_nil (k : Nat) : histogram k [] = List.replicate k 0 := by
  simp [histogram]

theorem histogram_concat (k : Nat) (xs : List Nat) (i : Nat) :
    histogram k (xs ++ [i]) = (histogram k xs).modify i (· + 1) := by
  apply List.ext_getElem?
  intro j
  rw [List.getElem?_modify]
  by_cases hj : j < k
  · by_cases hij : i = j
    · simp [histogram, hj, hij]
    · simp [histogram, hj, hij]
  · simp [histogram, hj]

theorem sum_take_histogram {k i : Nat} (hi : i < k) (xs : List Nat) :
    ((histogram k xs).take (i + 1)).sum = atMost xs i := by
  rw [histogram, ← List.map_take, List.take_range, Nat.min_eq_left hi,
    sum_count_eq_countP List.nodup_range, atMost]
  simp only [List.mem_range, Nat.lt_succ_iff]

/-- The first position where the sum of the counts so far, from `running` on, reaches the
target. -/
def crossing (target : Nat) (running : Nat) : List Nat → Option Nat
  | [] => none
  | count :: counts =>
    let running := running + count
    if running ≥ target then some 0 else (crossing target running counts).map (· + 1)

variable {target running : Nat} {counts : List Nat}

theorem crossing_spec {i : Nat} (h : crossing target running counts = some i) :
    i < counts.length ∧ target ≤ running + (counts.take (i + 1)).sum ∧
      ∀ j < i, running + (counts.take (j + 1)).sum < target := by
  induction counts generalizing running i with
  | nil => simp [crossing] at h
  | cons count counts ih =>
    simp only [crossing] at h
    split at h
    · next hreach =>
        cases h
        simpa using hreach
    · next hbelow =>
        obtain ⟨k, hk, rfl⟩ := Option.map_eq_some_iff.mp h
        obtain ⟨hlt, hat, hbef⟩ := ih hk
        refine ⟨by simpa using hlt, by simpa [Nat.add_assoc] using hat, fun j hj => ?_⟩
        cases j with
        | zero => simpa using hbelow
        | succ j => simpa [Nat.add_assoc] using hbef j (by omega)

theorem exists_crossing (hne : counts ≠ []) (h : target ≤ running + counts.sum) :
    ∃ i, crossing target running counts = some i := by
  induction counts generalizing running with
  | nil => exact absurd rfl hne
  | cons count counts ih =>
    simp only [crossing]
    split
    · exact ⟨0, rfl⟩
    · next hbelow =>
        simp only [List.sum_cons] at h
        have hrest : counts ≠ [] := by
          rintro rfl
          simp at h
          omega
        obtain ⟨i, hi⟩ := ih hrest (show target ≤ running + count + counts.sum by omega)
        exact ⟨i + 1, by rw [hi, Option.map_some]⟩

/-! ### Stable sorts -/

variable {κ : Type} [LinearOrder κ] {key : α → κ}

/-- The same members in ascending order of their keys, those of each key in the same order. -/
structure StablySorted (key : α → κ) (xs ys : List α) : Prop where
  perm : ys.Perm xs
  sorted : ys.Pairwise fun a b => key a ≤ key b
  ties : ∀ k, ys.filter (key · = k) = xs.filter (key · = k)

/-- A stable sort by a key. -/
def sortByKey (key : α → κ) (xs : List α) : List α := xs.mergeSort fun a b => key a ≤ key b

theorem stablySorted_nil : StablySorted key [] [] := ⟨.nil, .nil, fun _ => rfl⟩

section

variable (key : α → κ)

theorem le_key_trans (a b c : α) (hab : decide (key a ≤ key b) = true)
    (hbc : decide (key b ≤ key c) = true) : decide (key a ≤ key c) = true := by
  simpa using le_trans (of_decide_eq_true hab) (of_decide_eq_true hbc)

private theorem le_key_total (a b : α) : (decide (key a ≤ key b) || decide (key b ≤ key a)) = true
    := by
  simpa using le_total (key a) (key b)

private theorem pairwise_sortByKey (xs : List α) :
    (sortByKey key xs).Pairwise fun a b => key a ≤ key b := by
  simpa [sortByKey] using List.pairwise_mergeSort (le_key_trans key) (le_key_total key) xs

private theorem filter_sortByKey (xs : List α) (k : κ) :
    (sortByKey key xs).filter (key · = k) = xs.filter (key · = k) := by
  have htied : (xs.filter (key · = k)).Pairwise fun a b => decide (key a ≤ key b) = true := by
    rw [List.pairwise_iff_forall_sublist]
    intro a b hab
    have ha : key a = k := by simpa using List.of_mem_filter (hab.subset (by simp))
    have hb : key b = k := by simpa using List.of_mem_filter (hab.subset (by simp))
    simp [ha, hb]
  have hsub : (xs.filter (key · = k)).Sublist (sortByKey key xs) :=
    List.sublist_mergeSort (le_key_trans key) (le_key_total key) htied List.filter_sublist
  have hfil := hsub.filter (fun a => decide (key a = k))
  rw [List.filter_filter] at hfil
  simp only [Bool.and_self] at hfil
  refine (hfil.eq_of_length ?_).symm
  exact ((List.mergeSort_perm xs _).filter _).length_eq.symm

end

namespace StablySorted

variable {xs ys : List α}

theorem concat (h : StablySorted key xs ys) (x : α) :
    StablySorted key (xs ++ [x]) (sortByKey key (ys ++ [x])) := by
  refine ⟨?_, pairwise_sortByKey key _, fun k => ?_⟩
  · exact (List.mergeSort_perm _ _).trans (h.perm.append_right [x])
  · rw [filter_sortByKey, List.filter_append, List.filter_append, h.ties]

theorem filter (h : StablySorted key xs ys) (p : α → Bool) :
    StablySorted key (xs.filter p) (ys.filter p) := by
  refine ⟨h.perm.filter p, h.sorted.filter p, fun k => ?_⟩
  rw [List.filter_comm, h.ties, List.filter_comm]

end StablySorted

end Kaelix.Lib
