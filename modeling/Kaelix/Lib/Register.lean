import Mathlib.Data.List.Basic
import Mathlib.Order.Lattice

/-!
# Registers with versions

A register takes over a write whose version is at least its own.
-/

namespace Kaelix.Lib.Register

variable {U α : Type} [LinearOrder α] (version : U → α)

/-- The write, if its version is high enough. -/
def write (r u : U) : U := if version r ≤ version u then u else r

theorem write_eq_or (r u : U) : write version r u = u ∨ write version r u = r := by
  unfold write
  split
  · exact .inl rfl
  · exact .inr rfl

theorem version_le_write (r u : U) : version r ≤ version (write version r u) := by
  unfold write
  split
  · next h => exact h
  · exact le_refl _

theorem version_le_write_self (r u : U) : version u ≤ version (write version r u) := by
  unfold write
  split
  · exact le_refl _
  · next h => exact le_of_lt (not_le.mp h)

/-- The writes of a list that a register which holds `r` takes over. -/
def accepted (r : U) : List U → List U
  | [] => []
  | u :: us => if version r ≤ version u then u :: accepted u us else accepted r us

theorem foldl_write (us : List U) (r : U) :
    us.foldl (write version) r = (accepted version r us).getLastD r := by
  induction us generalizing r with
  | nil => rfl
  | cons u us ih =>
    rw [List.foldl_cons, ih, write]
    simp only [accepted]
    split
    · rw [List.getLastD_cons]
    · rfl

theorem foldl_write_cases (us : List U) : ∀ r,
    (us.foldl (write version) r = r ∧ ∀ u ∈ us, version u < version r) ∨
      (us.foldl (write version) r ∈ us ∧
        version r ≤ version (us.foldl (write version) r) ∧
        ∀ u ∈ us, version u ≤ version (us.foldl (write version) r)) := by
  induction us with
  | nil => intro r; exact .inl ⟨rfl, by simp⟩
  | cons u us ih =>
    intro r
    rw [List.foldl_cons, write]
    split
    · rename_i hle
      rcases ih u with ⟨heq, hlt⟩ | ⟨hmem, hge, hmax⟩
      · refine .inr ⟨?_, ?_, ?_⟩
        · rw [heq]
          exact List.mem_cons_self
        · rw [heq]
          exact hle
        · intro w hw
          rw [heq]
          rcases List.mem_cons.mp hw with rfl | hw
          · exact le_refl _
          · exact (hlt w hw).le
      · refine .inr ⟨List.mem_cons_of_mem _ hmem, hle.trans hge, ?_⟩
        intro w hw
        rcases List.mem_cons.mp hw with rfl | hw
        · exact hge
        · exact hmax w hw
    · rename_i hlt
      have hlt := not_le.mp hlt
      rcases ih r with ⟨heq, hall⟩ | ⟨hmem, hge, hmax⟩
      · refine .inl ⟨heq, ?_⟩
        intro w hw
        rcases List.mem_cons.mp hw with rfl | hw
        · exact hlt
        · exact hall w hw
      · refine .inr ⟨List.mem_cons_of_mem _ hmem, hge, ?_⟩
        intro w hw
        rcases List.mem_cons.mp hw with rfl | hw
        · exact hlt.le.trans hge
        · exact hmax w hw

theorem version_foldl_write {us xs : List U} (hxs : ∀ u, u ∈ xs ↔ u ∈ us) (r : U) :
    version (xs.foldl (write version) r) = version (us.foldl (write version) r) := by
  rcases foldl_write_cases version xs r with ⟨heq, hlt⟩ | ⟨hmem, hge, hmax⟩ <;>
    rcases foldl_write_cases version us r with ⟨heq', hlt'⟩ | ⟨hmem', hge', hmax'⟩
  · rw [heq, heq']
  · exact absurd hge' (not_le.mpr (hlt _ ((hxs _).mpr hmem')))
  · exact absurd hge (not_le.mpr (hlt' _ ((hxs _).mp hmem)))
  · exact le_antisymm (hmax' _ ((hxs _).mp hmem)) (hmax _ ((hxs _).mpr hmem'))

theorem mem_filterMap_congr {β : Type} (f : β → Option U) {xs es : List β}
    (h : ∀ e, e ∈ xs ↔ e ∈ es) (u : U) : u ∈ xs.filterMap f ↔ u ∈ es.filterMap f := by
  simp only [List.mem_filterMap, h]

/-- Two writes of the highest version that the register would take over are the
same. -/
def NoTie (r : U) (us : List U) : Prop :=
  ∀ u ∈ us, ∀ w ∈ us, version r ≤ version u → version w = version u →
    (∀ z ∈ us, version z ≤ version u) → w = u

/-- Events carry writes, read off by `f`.  Order and repetition of the events do not
matter exactly if there is no tie among the writes they carry. -/
theorem foldl_write_order_iff {β : Type} (f : β → Option U) (es : List β) (r : U) :
    (∀ xs ys : List β, (∀ e, e ∈ xs ↔ e ∈ es) → (∀ e, e ∈ ys ↔ e ∈ es) →
      (xs.filterMap f).foldl (write version) r = (ys.filterMap f).foldl (write version) r) ↔
      NoTie version r (es.filterMap f) := by
  constructor
  · intro h u hu w hw hge heq hmax
    -- append one of the two writes to the list: it is the last of the highest version
    have hlast : ∀ v, version v = version u →
        (es.filterMap f ++ [v]).foldl (write version) r = v := by
      intro v hveq
      rw [List.foldl_append, List.foldl_cons, List.foldl_nil, write, if_pos]
      rw [hveq]
      rcases foldl_write_cases version (es.filterMap f) r with ⟨hr, _⟩ | ⟨hmem, _, _⟩
      · rw [hr]
        exact hge
      · exact hmax _ hmem
    have hmem : ∀ b ∈ es, ∀ e, e ∈ es ++ [b] ↔ e ∈ es := by
      intro b hb e
      simp only [List.mem_append, List.mem_singleton]
      exact ⟨fun he => he.elim id fun he => he ▸ hb, .inl⟩
    obtain ⟨a, ha, hfa⟩ := List.mem_filterMap.mp hu
    obtain ⟨b, hb, hfb⟩ := List.mem_filterMap.mp hw
    have hsame := h (es ++ [b]) (es ++ [a]) (hmem b hb) (hmem a ha)
    simp only [List.filterMap_append, List.filterMap_cons, hfa, hfb, List.filterMap_nil] at hsame
    rwa [hlast w heq, hlast u rfl] at hsame
  · intro htie
    have key : ∀ xs : List β, (∀ e, e ∈ xs ↔ e ∈ es) →
        (xs.filterMap f).foldl (write version) r = (es.filterMap f).foldl (write version) r := by
      intro xs hxs
      have hmem := mem_filterMap_congr f hxs
      have hver := version_foldl_write version hmem r
      rcases foldl_write_cases version (es.filterMap f) r with
        ⟨heq, hlt⟩ | ⟨hin, hge, hmax⟩
      · rcases foldl_write_cases version (xs.filterMap f) r with
          ⟨heq', _⟩ | ⟨hin', hge', _⟩
        · rw [heq, heq']
        · exact absurd hge' (not_le.mpr (hlt _ ((hmem _).mp hin')))
      · rcases foldl_write_cases version (xs.filterMap f) r with
          ⟨_, hlt'⟩ | ⟨hin', _, _⟩
        · exact absurd hge (not_le.mpr (hlt' _ ((hmem _).mpr hin)))
        · exact htie _ hin _ ((hmem _).mp hin') hge hver hmax
    intro xs ys hxs hys
    rw [key xs hxs, key ys hys]

end Kaelix.Lib.Register
