import Mathlib.Data.List.Induction
import Mathlib.Data.List.Sort
import Std.Data.TreeMap.Lemmas

/-!
# Ordered maps that hold a list

A map from positions to values holds a list if it has the `i`-th value of the list at `i` and
nothing else.  Appending to the list is inserting at its length, and the entries of the map in key
order are those of the list.
-/

namespace Kaelix.Lib

open Std

variable {V : Type}

/-- The values at the keys from `a` to `b`, in key order. -/
def rangeValues (t : TreeMap Nat V) (a b : Nat) : List V :=
  (t.toList.filter fun e => decide (a ≤ e.1) && decide (e.1 ≤ b)).map Prod.snd

/-- The map `t` has the `i`-th value of `l` at `i` and nothing else. -/
def HoldsList (t : TreeMap Nat V) (l : List V) : Prop := ∀ i : Nat, t[i]? = l[i]?

theorem holdsList_empty : HoldsList (∅ : TreeMap Nat V) [] := by
  intro i
  rw [TreeMap.getElem?_emptyc, List.getElem?_nil]

variable {t : TreeMap Nat V} {l : List V}

theorem HoldsList.append (h : HoldsList t l) (v : V) :
    HoldsList (t.insert l.length v) (l ++ [v]) := by
  intro i
  rw [TreeMap.getElem?_insert, h i]
  rcases Nat.lt_trichotomy i l.length with hlt | rfl | hgt
  · rw [if_neg (by simp; omega), List.getElem?_append_left hlt]
  · rw [if_pos (by simp), List.getElem?_concat_length]
  · rw [if_neg (by simp; omega), List.getElem?_eq_none hgt.le,
      List.getElem?_eq_none (by rw [List.length_append, List.length_singleton]; omega)]

theorem HoldsList.toList_eq (h : HoldsList t l) : t.toList = l.mapIdx fun i v => (i, v) := by
  let r : Nat × V → Nat × V → Prop := fun a b => a.1 < b.1
  have : Std.Antisymm r := ⟨fun a b hab hba => absurd hab (Nat.lt_asymm hba)⟩
  have : Std.Irrefl r := ⟨fun a => Nat.lt_irrefl a.1⟩
  refine List.Pairwise.eq_of_mem_iff (r := r) ?_ ?_ ?_
  · exact TreeMap.ordered_keys_toList.imp fun hlt => Nat.compare_eq_lt.mp hlt
  · rw [List.pairwise_iff_getElem]
    intro i j hi hj hij
    rw [List.getElem_mapIdx, List.getElem_mapIdx]
    exact hij
  · rintro ⟨k, v⟩
    rw [TreeMap.mem_toList_iff_getElem?_eq_some, h k, List.mem_mapIdx]
    constructor
    · intro hk
      obtain ⟨hlt, rfl⟩ := List.getElem?_eq_some_iff.mp hk
      exact ⟨k, hlt, rfl⟩
    · rintro ⟨i, hi, heq⟩
      cases heq
      exact List.getElem?_eq_getElem hi

section

variable {K : Type} [Ord K] [TransOrd K] [LawfulEqOrd K] (key : V → K)

/-- Values written one after another, each under a key of its own. -/
def orderedWrites (writes : List V) (t : TreeMap K V) : TreeMap K V :=
  writes.foldl (fun t v => t.insert (key v) v) t

theorem mem_toList_orderedWrites {writes : List V} (hdist : (writes.map key).Nodup)
    {k : K} {v : V} : (k, v) ∈ (orderedWrites key writes ∅).toList ↔ v ∈ writes ∧ key v = k := by
  rw [TreeMap.mem_toList_iff_getElem?_eq_some]
  induction writes using List.reverseRecOn with
  | nil => simp [orderedWrites]
  | append_singleton writes w ih =>
    have hwrite : orderedWrites key (writes ++ [w]) ∅ =
        (orderedWrites key writes ∅).insert (key w) w := List.foldl_concat ..
    rw [List.map_append, List.map_singleton] at hdist
    have hnot : key w ∉ writes.map key := fun hmem =>
      (List.nodup_append.mp hdist).2.2 _ hmem _ (List.mem_singleton_self _) rfl
    have hrest := ih (List.nodup_append.mp hdist).1
    rw [hwrite, TreeMap.getElem?_insert, List.mem_append, List.mem_singleton]
    by_cases hk : key w = k
    · rw [if_pos (Std.compare_eq_iff_eq.mpr hk)]
      constructor
      · intro h
        obtain rfl := Option.some.inj h
        exact ⟨.inr rfl, hk⟩
      · rintro ⟨hmem | rfl, hv⟩
        · exact absurd (List.mem_map.mpr ⟨v, hmem, hv.trans hk.symm⟩) hnot
        · rfl
    · rw [if_neg fun h => hk (Std.compare_eq_iff_eq.mp h), hrest]
      constructor
      · rintro ⟨hmem, hv⟩
        exact ⟨.inl hmem, hv⟩
      · rintro ⟨hmem | rfl, hv⟩
        · exact ⟨hmem, hv⟩
        · exact absurd hv hk

theorem perm_orderedWrites {writes : List V} (hdist : (writes.map key).Nodup) :
    ((orderedWrites key writes ∅).toList.map Prod.snd).Perm writes := by
  have hkey : ∀ e ∈ (orderedWrites key writes ∅).toList, key e.2 = e.1 := fun e he =>
    ((mem_toList_orderedWrites key hdist).mp he).2
  have hnd : ((orderedWrites key writes ∅).toList.map Prod.snd).Nodup := by
    rw [List.Nodup, List.pairwise_map]
    refine TreeMap.ordered_keys_toList.imp_of_mem fun he he' hlt heq => ?_
    rw [← hkey _ he, ← hkey _ he', heq] at hlt
    cases hlt.symm.trans ReflOrd.compare_self
  refine (List.perm_ext_iff_of_nodup hnd (List.Nodup.of_map key hdist)).mpr fun v => ?_
  rw [List.mem_map]
  constructor
  · rintro ⟨⟨k, v⟩, he, rfl⟩
    exact ((mem_toList_orderedWrites key hdist).mp he).1
  · intro hv
    exact ⟨(key v, v), (mem_toList_orderedWrites key hdist).mpr ⟨hv, rfl⟩, rfl⟩

end

end Kaelix.Lib
