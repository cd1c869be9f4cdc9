import Mathlib.Data.Set.Basic

/-!
# Points on a ring

Positions are ordered, and after the last one comes the first again.  Seen from a position `q`,
the points at or after `q` come first, in order, and then the others.

Nothing but membership matters: among fewer points, a next point that is still there is still the
next one (`IsNext.subset`).
-/

namespace Kaelix.Lib.Ring

variable {K V : Type} [LinearOrder K]

/-- Seen from `q`, the point `p` does not come after `p'`. -/
def Precedes (q p p' : K) : Prop := (q ≤ p ∧ p' < q) ∨ ((q ≤ p ↔ q ≤ p') ∧ p ≤ p')

variable {q p p' : K}

theorem Precedes.antisymm (h : Precedes q p p') (h' : Precedes q p' p) : p = p' := by
  rcases h with ⟨hp, hp'⟩ | ⟨hside, hle⟩
  · rcases h' with ⟨hq, -⟩ | ⟨hside', -⟩
    · exact absurd hq (not_le.mpr hp')
    · exact absurd (hside'.mpr hp) (not_le.mpr hp')
  · rcases h' with ⟨hq, hlt⟩ | ⟨-, hle'⟩
    · exact absurd (hside.mpr hq) (not_le.mpr hlt)
    · exact le_antisymm hle hle'

/-- The first of the points in `S`, seen from `q`. -/
structure IsNext (S : Set K) (q p : K) : Prop where
  mem : p ∈ S
  precedes : ∀ p' ∈ S, Precedes q p p'

theorem IsNext.unique {S : Set K} (h : IsNext S q p) (h' : IsNext S q p') : p = p' :=
  (h.precedes p' h'.mem).antisymm (h'.precedes p h.mem)

theorem IsNext.subset {S T : Set K} (h : IsNext S q p) (hsub : T ⊆ S) (hp : p ∈ T) :
    IsNext T q p :=
  ⟨hp, fun p' hp' => h.precedes p' (hsub hp')⟩

/-- The value at the first key from `q` on, or at the first key of all. -/
def findNext (entries : List (K × V)) (q : K) : Option V :=
  ((entries.find? fun e => decide (q ≤ e.1)).or entries.head?).map Prod.snd

/-- The keys of the entries. -/
def points (entries : List (K × V)) : Set K := {p | ∃ v, (p, v) ∈ entries}

variable {entries : List (K × V)}

theorem findNext_eq_none_iff : findNext entries q = none ↔ entries = [] := by
  cases entries with
  | nil => exact iff_of_true rfl rfl
  | cons => simp [findNext]

theorem exists_isNext_of_findNext (hsort : entries.Pairwise fun e e' => e.1 < e'.1) {v : V}
    (h : findNext entries q = some v) : ∃ p, IsNext (points entries) q p ∧ (p, v) ∈ entries := by
  obtain ⟨⟨p, v'⟩, hent, rfl⟩ := Option.map_eq_some_iff.mp h
  cases hfind : entries.find? fun e => decide (q ≤ e.1) with
  | some =>
    rw [hfind, Option.some_or, Option.some.injEq] at hent
    subst hent
    obtain ⟨hle, before, after, rfl, hbef⟩ := List.find?_eq_some_iff_append.mp hfind
    have hmem : (p, v') ∈ before ++ (p, v') :: after := by simp
    have hq : q ≤ p := of_decide_eq_true hle
    refine ⟨p, ⟨⟨v', hmem⟩, fun p' hp' => ?_⟩, hmem⟩
    obtain ⟨w, hw⟩ := hp'
    -- the entries before come last, those after are in order
    rcases List.mem_append.mp hw with hw | hw
    · left
      exact ⟨hq, not_le.mp (by simpa using hbef (p', w) hw)⟩
    · right
      have hle' : p ≤ p' := by
        rcases List.mem_cons.mp hw with heq | hw
        · exact le_of_eq (congrArg Prod.fst heq).symm
        · have hrest := (List.pairwise_append.mp hsort).2.1
          exact le_of_lt ((List.pairwise_cons.mp hrest).1 (p', w) hw)
      exact ⟨iff_of_true hq (le_trans hq hle'), hle'⟩
  | none =>
    rw [hfind, Option.none_or] at hent
    cases entries with
    | nil => cases hent
    | cons e =>
      obtain rfl : e = (p, v') := Option.some.inj hent
      have hall := List.find?_eq_none.mp hfind
      refine ⟨p, ⟨⟨v', List.mem_cons_self⟩, fun p' hp' => ?_⟩, List.mem_cons_self⟩
      obtain ⟨w, hw⟩ := hp'
      have hp : ¬q ≤ p := by simpa using hall (p, v') List.mem_cons_self
      have hp' : ¬q ≤ p' := by simpa using hall (p', w) hw
      right
      refine ⟨iff_of_false hp hp', ?_⟩
      rcases List.mem_cons.mp hw with heq | hw
      · exact le_of_eq (congrArg Prod.fst heq).symm
      · exact le_of_lt ((List.pairwise_cons.mp hsort).1 (p', w) hw)

end Kaelix.Lib.Ring
