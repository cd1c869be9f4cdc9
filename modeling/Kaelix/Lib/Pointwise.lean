import Mathlib.Algebra.GroupWithZero.Nat
import Mathlib.Data.List.Forall2
import Mathlib.Data.List.Count
import Mathlib.Order.Lattice

/-!
# Lists that are compared place by place

`List.Forall₂ (· ≤ ·) xs ys` says that `ys` arises from `xs` by raising some of its members.
-/

namespace Kaelix.Lib

variable {α β : Type} {xs ys : List α}

private theorem forall₂_le_trans [Preorder α] {zs : List α} (hxy : List.Forall₂ (· ≤ ·) xs ys)
    (hyz : List.Forall₂ (· ≤ ·) ys zs) : List.Forall₂ (· ≤ ·) xs zs := by
  induction hxy generalizing zs with
  | nil => exact hyz
  | cons hle _ ih =>
    cases hyz with
    | cons hle' hrest => exact .cons (le_trans hle hle') (ih hrest)

theorem countP_le_of_forall₂ [LE α] {p : α → Bool} (hp : ∀ x y, x ≤ y → p x → p y)
    (h : List.Forall₂ (· ≤ ·) xs ys) : xs.countP p ≤ ys.countP p := by
  induction h with
  | nil => simp
  | @cons x y xs ys hxy _ ih =>
    have hhead := hp x y hxy
    simp only [List.countP_cons]
    split
    · next hx => simpa [hhead hx] using ih
    · omega

private theorem exists_raise [LinearOrder α] {a b : α} (hab : a < b) {k : Nat} (hk : k ≤ xs.count a)
    :
    ∃ ys, List.Forall₂ (· ≤ ·) xs ys ∧
      ∀ c, ys.count c + (if c = a then k else 0) = xs.count c + if c = b then k else 0 := by
  induction xs generalizing k with
  | nil =>
    have hzero : k = 0 := by simpa using hk
    exact ⟨[], .nil, by simp [hzero]⟩
  | cons x xs ih =>
    by_cases hraise : x = a ∧ k ≠ 0
    · have hrest : k - 1 ≤ xs.count a := by
        rw [hraise.1, List.count_cons_self] at hk
        omega
      obtain ⟨ys, hle, hcnt⟩ := ih hrest
      refine ⟨b :: ys, .cons (hraise.1 ▸ le_of_lt hab) hle, fun c => ?_⟩
      have hc := hcnt c
      have hne := ne_of_lt hab
      rw [hraise.1, List.count_cons, List.count_cons]
      by_cases hca : c = a
      · simp [hca, hne, hne.symm] at hc ⊢
        omega
      · by_cases hcb : c = b
        · simp [hcb, hne, hne.symm] at hc ⊢
          omega
        · simp [hca, hcb, Ne.symm hca, Ne.symm hcb] at hc ⊢
          omega
    · have hrest : k ≤ xs.count a := by
        by_cases hx : x = a
        · have hzero : k = 0 := by
            by_contra hne
            exact hraise ⟨hx, hne⟩
          omega
        · rwa [List.count_cons_of_ne hx] at hk
      obtain ⟨ys, hle, hcnt⟩ := ih hrest
      refine ⟨x :: ys, .cons le_rfl hle, fun c => ?_⟩
      have hc := hcnt c
      rw [List.count_cons, List.count_cons]
      omega

/-- If there is room for all members with one of the values `a :: bs`, and only those with `a`
are too many, then some of them can be raised so that no value has too many. -/
theorem exists_settled [LinearOrder α] (room : α → Nat) {a : α} {bs : List α}
    (hsort : (a :: bs).Pairwise (· < ·)) (hoths : ∀ b ∈ bs, xs.count b ≤ room b)
    (htot : ((a :: bs).map xs.count).sum ≤ ((a :: bs).map room).sum) :
    ∃ ys, List.Forall₂ (· ≤ ·) xs ys ∧ (∀ b ∈ a :: bs, ys.count b ≤ room b) ∧
      ∀ c, c ∉ a :: bs → ys.count c = xs.count c := by
  induction bs generalizing a xs with
  | nil => exact ⟨xs, List.forall₂_same.mpr fun _ _ => le_rfl, by simpa using htot, by simp⟩
  | cons b bs ih =>
    by_cases ha : xs.count a ≤ room a
    · exact ⟨xs, List.forall₂_same.mpr fun _ _ => le_rfl, by simpa [ha] using hoths, by simp⟩
    · -- the excess goes to the next value, which may then have too many itself
      obtain ⟨habove, hrest⟩ := List.pairwise_cons.mp hsort
      have hab : a < b := habove b (by simp)
      obtain ⟨ys, hxy, hcnt⟩ := exists_raise hab (Nat.sub_le (xs.count a) (room a))
      have hsame : ∀ c ∈ bs, ys.count c = xs.count c := by
        intro c hc
        have hca := (ne_of_lt (habove c (by simp [hc]))).symm
        have hcb := (ne_of_lt ((List.pairwise_cons.mp hrest).1 c hc)).symm
        simpa [hca, hcb] using hcnt c
      have hb := hcnt b
      have hsums : (bs.map ys.count).sum = (bs.map xs.count).sum :=
        congrArg List.sum (List.map_congr_left hsame)
      have htot' : ((b :: bs).map ys.count).sum ≤ ((b :: bs).map room).sum := by
        simp [(ne_of_lt hab).symm] at htot hb ⊢
        omega
      obtain ⟨zs, hyz, hroom, hkeep⟩ := ih hrest
        (fun c hc => hsame c hc ▸ hoths c (by simp [hc])) htot'
      refine ⟨zs, forall₂_le_trans hxy hyz, ?_, ?_⟩
      · have hnot : a ∉ b :: bs := fun hmem => lt_irrefl a (habove a hmem)
        have haa := hcnt a
        simp [ne_of_lt hab] at haa
        intro c hc
        rcases List.mem_cons.mp hc with rfl | hc
        · rw [hkeep c hnot]
          omega
        · exact hroom c hc
      · intro c hc
        simp at hc
        simpa [hc, hkeep c] using hcnt c

theorem sum_count_eq_countP [DecidableEq α] {bs : List α} (hbs : bs.Nodup) (xs : List α) :
    (bs.map xs.count).sum = xs.countP (· ∈ bs) := by
  induction bs with
  | nil => simp
  | cons b bs ih =>
    obtain ⟨hnot, hrest⟩ := List.nodup_cons.mp hbs
    rw [List.map_cons, List.sum_cons, ih hrest]
    clear ih
    induction xs with
    | nil => simp
    | cons x xs ihx =>
      by_cases hx : x = b
      · simp [hx, hnot] at ihx ⊢
        omega
      · simp [hx, List.countP_cons] at ihx ⊢
        omega

theorem exists_assignment [DecidableEq α] {R : α → β → Prop} (default : α → β) {keys : List α}
    (hkeys : keys.Nodup) {values : List β} (h : List.Forall₂ R keys values) :
    ∃ f : α → β, (∀ key ∈ keys, R key (f key)) ∧ keys.map f = values := by
  induction h with
  | nil => exact ⟨default, by simp, rfl⟩
  | @cons key value keys values hkey _ ih =>
    obtain ⟨hnot, hrest⟩ := List.nodup_cons.mp hkeys
    obtain ⟨f, hR, hmap⟩ := ih hrest
    have hkeep : ∀ k ∈ keys, Function.update f key value k = f k := fun k hk =>
      Function.update_of_ne (ne_of_mem_of_not_mem hk hnot) _ _
    refine ⟨Function.update f key value, ?_, ?_⟩
    · intro k hk
      rcases List.mem_cons.mp hk with rfl | hk
      · simpa using hkey
      · simpa [hkeep k hk] using hR k hk
    · simpa [List.map_congr_left hkeep] using hmap

end Kaelix.Lib
