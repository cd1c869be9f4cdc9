import Mathlib.Data.List.Infix

/-!
# Trees as functions of paths

What each path of keys leads to: nothing, an inner node, or a leaf.  Setting a leaf makes the
inner nodes on the way to it and removes what is below it.  A leaf on the way blocks it, and the
tree stays as it is.
-/

namespace Kaelix.Lib

variable {K V : Type}

/-- What a path can lead to. -/
inductive Node (V : Type) where
  | inner
  | leaf (v : V)

/-- What each path leads to, if it leads anywhere. -/
abbrev PathTree (K V : Type) := List K → Option (Node V)

namespace PathTree

/-- There is a leaf on the way to the path. -/
def Blocked (t : PathTree K V) (p : List K) : Prop :=
  ∃ q v, q <+: p ∧ q ≠ p ∧ t q = some (.leaf v)

open Classical in
/-- The tree with a leaf at the path, where no leaf is on the way. -/
noncomputable def set (t : PathTree K V) (p : List K) (v : V) : PathTree K V :=
  if t.Blocked p then t
  else fun q =>
    if q = p then some (.leaf v)
    else if p <+: q then none
    else if q <+: p then some .inner
    else t q

variable {t : PathTree K V} {p q : List K} {v w : V}

theorem set_of_blocked (h : t.Blocked p) : t.set p v = t := if_pos h

theorem set_self (h : ¬ t.Blocked p) : t.set p v p = some (.leaf v) := by
  rw [set, if_neg h, if_pos rfl]

theorem set_below (h : ¬ t.Blocked p) (hne : q ≠ p) (hpq : p <+: q) : t.set p v q = none := by
  rw [set, if_neg h, if_neg hne, if_pos hpq]

theorem set_above (h : ¬ t.Blocked p) (hne : q ≠ p) (hqp : q <+: p) :
    t.set p v q = some .inner := by
  have hpq : ¬ p <+: q := fun hpq => hne (hqp.eq_of_length_le hpq.length_le)
  rw [set, if_neg h, if_neg hne, if_neg hpq, if_pos hqp]

theorem set_elsewhere (hpq : ¬ p <+: q) (hqp : ¬ q <+: p) : t.set p v q = t q := by
  have hne : q ≠ p := fun h => hpq (h ▸ List.prefix_rfl)
  by_cases h : t.Blocked p
  · rw [set_of_blocked h]
  · rw [set, if_neg h, if_neg hne, if_neg hpq, if_neg hqp]

private theorem set_congr {t' : PathTree K V} (h : ¬ t.Blocked p) (h' : ¬ t'.Blocked p)
    (hq : t q = t' q) : t.set p v q = t'.set p v q := by
  simp only [set, if_neg h, if_neg h', hq]

theorem blocked_set_iff (h : ¬ t.Blocked p) (hne : p ≠ q) :
    (t.set p v).Blocked q ↔ p <+: q ∨ t.Blocked q := by
  constructor
  · rintro ⟨s, u, hsq, hsne, hs⟩
    by_cases hsp : s = p
    · exact .inl (hsp ▸ hsq)
    by_cases hps : p <+: s
    · rw [set_below h hsp hps] at hs
      cases hs
    by_cases habove : s <+: p
    · rw [set_above h hsp habove] at hs
      cases hs
    rw [set_elsewhere hps habove] at hs
    exact .inr ⟨s, u, hsq, hsne, hs⟩
  · rintro (hpq | ⟨s, u, hsq, hsne, hs⟩)
    · exact ⟨p, v, hpq, hne, set_self h⟩
    · by_cases hps : p <+: s
      · exact ⟨p, v, hps.trans hsq, hne, set_self h⟩
      · have hsp : ¬ s <+: p := fun hsp =>
          h ⟨s, u, hsp, fun heq => hps (heq ▸ List.prefix_rfl), hs⟩
        exact ⟨s, u, hsq, hsne, by rw [set_elsewhere hps hsp, hs]⟩

private theorem set_comm_of_below (hp : ¬ t.Blocked p) (hne : p ≠ q) (hpq : p <+: q) :
    (t.set p v).set q w = (t.set q w).set p v := by
  rw [set_of_blocked ((blocked_set_iff hp hne).mpr (.inl hpq))]
  by_cases hq : t.Blocked q
  · rw [set_of_blocked hq]
  have hqp : ¬ q <+: p := fun hqp => hne (hpq.eq_of_length_le hqp.length_le)
  have hfree : ¬ (t.set q w).Blocked p := by
    rw [blocked_set_iff hq hne.symm]
    exact not_or.mpr ⟨hqp, hp⟩
  funext r
  by_cases hr : r = p
  · rw [hr, set_self hp, set_self hfree]
  by_cases hpr : p <+: r
  · rw [set_below hp hr hpr, set_below hfree hr hpr]
  by_cases hrp : r <+: p
  · rw [set_above hp hr hrp, set_above hfree hr hrp]
  -- a path that is elsewhere for `p` is elsewhere for `q`
  have hqr : ¬ q <+: r := fun h => hpr (hpq.trans h)
  have hrq : ¬ r <+: q := fun h =>
    (List.prefix_or_prefix_of_prefix h hpq).elim hrp hpr
  rw [set_elsewhere hpr hrp, set_elsewhere hpr hrp, set_elsewhere hqr hrq]

private theorem set_comm_of_apart (hp : ¬ t.Blocked p) (hq : ¬ t.Blocked q) (hpq : ¬ p <+: q)
    (hqp : ¬ q <+: p) : (t.set p v).set q w = (t.set q w).set p v := by
  have hne : p ≠ q := fun h => hpq (h ▸ List.prefix_rfl)
  have hp' : ¬ (t.set q w).Blocked p := by
    rw [blocked_set_iff hq hne.symm]
    exact not_or.mpr ⟨hqp, hp⟩
  have hq' : ¬ (t.set p v).Blocked q := by
    rw [blocked_set_iff hp hne]
    exact not_or.mpr ⟨hpq, hq⟩
  funext r
  by_cases hr : p <+: r ∨ r <+: p
  · by_cases hr' : q <+: r ∨ r <+: q
    · -- a path that meets both is above both
      have hrp : r <+: p := hr.resolve_left fun h =>
        hr'.elim (fun h' => (List.prefix_or_prefix_of_prefix h h').elim hpq hqp)
          fun h' => hpq (h.trans h')
      have hrq : r <+: q := hr'.resolve_left fun h' => hqp (h'.trans hrp)
      have hrp' : r ≠ p := fun h => hpq (h ▸ hrq)
      have hrq' : r ≠ q := fun h => hqp (h ▸ hrp)
      rw [set_above hq' hrq' hrq, set_above hp' hrp' hrp]
    · obtain ⟨hqr, hrq⟩ := not_or.mp hr'
      rw [set_elsewhere hqr hrq]
      exact set_congr hp hp' (set_elsewhere hqr hrq).symm
  · obtain ⟨hpr, hrp⟩ := not_or.mp hr
    rw [set_elsewhere (t := t.set q w) hpr hrp]
    exact set_congr hq' hq (set_elsewhere hpr hrp)

private theorem set_comm (hne : p ≠ q) : (t.set p v).set q w = (t.set q w).set p v := by
  by_cases hp : t.Blocked p
  · rw [set_of_blocked hp]
    by_cases hq : t.Blocked q
    · rw [set_of_blocked hq, set_of_blocked hp]
    · rw [set_of_blocked ((blocked_set_iff hq hne.symm).mpr (.inr hp))]
  by_cases hq : t.Blocked q
  · rw [set_of_blocked hq, set_of_blocked ((blocked_set_iff hp hne).mpr (.inr hq))]
  by_cases hpq : p <+: q
  · exact set_comm_of_below hp hne hpq
  by_cases hqp : q <+: p
  · exact (set_comm_of_below hq hne.symm hqp).symm
  · exact set_comm_of_apart hp hq hpq hqp

theorem foldl_set_of_perm {writes writes' : List (List K × V)} (h : writes.Perm writes')
    (hdist : ∀ x ∈ writes, ∀ y ∈ writes, x ≠ y → x.1 ≠ y.1) (t : PathTree K V) :
    writes.foldl (fun t x => t.set x.1 x.2) t = writes'.foldl (fun t x => t.set x.1 x.2) t := by
  apply h.foldl_eq'
  intro x hx y hy t
  by_cases heq : x = y
  · rw [heq]
  · exact set_comm (hdist x hx y hy heq)

end PathTree

end Kaelix.Lib
