import Mathlib.Data.Finset.Card
import Mathlib.Data.List.Sort

/-!
# Majorities

Two majorities of one set have a common member.
-/

namespace Kaelix.Lib

variable {α : Type} [DecidableEq α]

/-- More than half of the members of `S`. -/
structure IsMajority (Q S : Finset α) : Prop where
  subset : Q ⊆ S
  card : S.card < 2 * Q.card

theorem IsMajority.inter {Q R S : Finset α} (hQ : IsMajority Q S)
    (hR : IsMajority R S) : ∃ v, v ∈ Q ∧ v ∈ R := by
  have hcard : S.card < Q.card + R.card := by
    have := hQ.card
    have := hR.card
    omega
  obtain ⟨v, hv⟩ := Finset.inter_nonempty_of_card_lt_card_add_card hQ.subset hR.subset hcard
  exact ⟨v, Finset.mem_inter.mp hv⟩

/-- Value at position `length / 2` of the sorted list. -/
def upperMedian (l : List Nat) : Nat := (l.insertionSort (· ≤ ·)).getD (l.length / 2) 0

variable {l : List Nat} {i : Nat}

private theorem length_sub_le_countP (hl : l.Pairwise (· ≤ ·)) (hi : i < l.length) :
    l.length - i ≤ l.countP fun x => decide (l[i] ≤ x) := by
  have hdrop : ∀ x ∈ l.drop i, decide (l[i] ≤ x) = true := by
    intro x hx
    obtain ⟨j, hj, rfl⟩ := List.mem_iff_getElem.mp hx
    rw [List.getElem_drop, decide_eq_true_eq]
    rcases Nat.eq_zero_or_pos j with h0 | hpos
    · simp [h0]
    · exact List.pairwise_iff_getElem.mp hl _ _ hi _ (by omega)
  calc l.length - i = (l.drop i).length := by rw [List.length_drop]
    _ = (l.drop i).countP fun x => decide (l[i] ≤ x) := (List.countP_eq_length.mpr hdrop).symm
    _ ≤ l.countP fun x => decide (l[i] ≤ x) := (List.drop_sublist i l).countP_le

theorem getElem?_upperMedian (hl : l ≠ []) :
    (l.insertionSort (· ≤ ·))[l.length / 2]? = some (upperMedian l) := by
  have hpos : 0 < l.length := List.length_pos_iff.mpr hl
  have hi : l.length / 2 < (l.insertionSort (· ≤ ·)).length := by
    rw [List.length_insertionSort]
    omega
  rw [upperMedian, List.getD_eq_getElem?_getD, List.getElem?_eq_getElem hi]
  rfl

theorem upperMedian_le_countP (hl : l ≠ []) :
    l.length - l.length / 2 ≤ l.countP fun x => decide (upperMedian l ≤ x) := by
  have hlen : (l.insertionSort (· ≤ ·)).length = l.length := List.length_insertionSort _ l
  obtain ⟨hi, hmed⟩ := List.getElem?_eq_some_iff.mp (getElem?_upperMedian hl)
  have hcnt := length_sub_le_countP (List.pairwise_insertionSort (· ≤ ·) l) hi
  rw [hmed, hlen, (List.perm_insertionSort (· ≤ ·) l).countP_eq] at hcnt
  exact hcnt

private theorem countP_le_length_sub (hl : l.Pairwise (· ≤ ·)) {x : Nat} (hi : i < l.length)
    (hx : l[i] < x) : l.countP (fun y => decide (x ≤ y)) ≤ l.length - (i + 1) := by
  have htake : (l.take (i + 1)).countP (fun y => decide (x ≤ y)) = 0 := by
    rw [List.countP_eq_zero]
    intro y hy
    obtain ⟨j, hj, rfl⟩ := List.mem_iff_getElem.mp hy
    rw [List.length_take] at hj
    have hle : l[j] ≤ l[i] := by
      rcases Nat.lt_or_ge j i with hlt | hge
      · exact List.pairwise_iff_getElem.mp hl _ _ _ hi hlt
      · obtain rfl : j = i := by omega
        exact le_refl _
    rw [List.getElem_take, decide_eq_true_eq]
    omega
  calc l.countP (fun y => decide (x ≤ y))
      = (l.take (i + 1)).countP (fun y => decide (x ≤ y)) +
          (l.drop (i + 1)).countP (fun y => decide (x ≤ y)) := by
        rw [← List.countP_append, List.take_append_drop]
    _ ≤ (l.drop (i + 1)).length := by
        rw [htake, Nat.zero_add]
        exact List.countP_le_length
    _ = l.length - (i + 1) := List.length_drop

private theorem le_upperMedian {x : Nat} (hl : l ≠ [])
    (h : l.length - l.length / 2 ≤ l.countP fun y => decide (x ≤ y)) : x ≤ upperMedian l := by
  have hlen : (l.insertionSort (· ≤ ·)).length = l.length := List.length_insertionSort _ l
  obtain ⟨hi, hmed⟩ := List.getElem?_eq_some_iff.mp (getElem?_upperMedian hl)
  apply Nat.le_of_not_lt
  intro hlt
  rw [← hmed] at hlt
  have hcnt := countP_le_length_sub (List.pairwise_insertionSort (· ≤ ·) l) hi hlt
  rw [hlen, (List.perm_insertionSort (· ≤ ·) l).countP_eq] at hcnt
  omega

/-- Half of the values reach `n`, and no higher number is reached so often. -/
def HalfReach (l : List Nat) (n : Nat) : Prop :=
  l.length ≤ 2 * l.countP (fun x => decide (n ≤ x)) ∧
    2 * l.countP (fun x => decide (n + 1 ≤ x)) < l.length

/-- The upper median is the highest number that half of the values reach. -/
theorem halfReach_iff (hl : l ≠ []) {n : Nat} : HalfReach l n ↔ upperMedian l = n := by
  have hle : ∀ j, l.length ≤ 2 * l.countP (fun x => decide (j ≤ x)) → j ≤ upperMedian l :=
    fun j hj => le_upperMedian hl (by omega)
  have hmedian := upperMedian_le_countP hl
  constructor
  · rintro ⟨hn, hnext⟩
    refine Nat.le_antisymm (Nat.le_of_not_lt fun hlt => ?_) (hle n hn)
    have hanti : l.countP (fun x => decide (upperMedian l ≤ x)) ≤
        l.countP fun x => decide (n + 1 ≤ x) :=
      List.countP_mono_left fun x _ hx => by simp only [decide_eq_true_eq] at hx ⊢; omega
    omega
  · rintro rfl
    refine ⟨by omega, Nat.lt_of_not_le fun hj => ?_⟩
    have := hle _ hj
    omega

end Kaelix.Lib
