import Kaelix.Lib.History

/-!
# Maps with a journal of insertions

A map is changed by insertions (`put`) and by removing all keys from one on (`cut`), and only the
insertions are written to a journal.  The journal gives the map back iff no key was cut after it was
put for the last time (`contents_eq_replayed_iff`).
-/

namespace Kaelix.Lib

/-- A change of the map. -/
inductive Change (K V : Type) where
  | put (key : K) (value : V)
  | cut (start : K)

variable {K V : Type} [DecidableEq K] [LT K] [DecidableLT K]

/-- The map after a change. -/
def Change.apply (m : K → Option V) : Change K V → K → Option V
  | .put key value => Function.update m key (some value)
  | .cut start => fun k => if k < start then m k else none

/-- The change is an insertion. -/
def Change.isPut : Change K V → Bool
  | .put _ _ => true
  | .cut _ => false

/-- The map after all changes. -/
def contents (changes : List (Change K V)) : K → Option V :=
  changes.foldl Change.apply fun _ => none

/-- The map that the insertions alone give. -/
def replayed (changes : List (Change K V)) : K → Option V := contents (changes.filter Change.isPut)

/-- The key was put, and not cut since. -/
def Kept (changes : List (Change K V)) (k : K) : Prop :=
  Since changes (fun c => ∃ v, c = .put k v) fun c => ∀ start, c = .cut start → k < start

section

variable (changes : List (Change K V))

theorem contents_concat (c : Change K V) :
    contents (changes ++ [c]) = c.apply (contents changes) := by
  rw [contents, List.foldl_append]
  rfl

theorem replayed_put (k : K) (v : V) :
    replayed (changes ++ [.put k v]) = Function.update (replayed changes) k (some v) := by
  rw [replayed, List.filter_append]
  exact contents_concat ..

theorem replayed_cut (start : K) :
    replayed (changes ++ [.cut start]) = replayed changes := by
  rw [replayed, List.filter_append]
  exact congrArg contents (List.append_nil _)

theorem contents_eq (k : K) :
    (Kept changes k → contents changes k = replayed changes k ∧ (contents changes k).isSome) ∧
      (¬ Kept changes k → contents changes k = none) := by
  induction changes using List.reverseRecOn with
  | nil => exact ⟨fun h => absurd h not_since_nil, fun _ => rfl⟩
  | append_singleton changes c ih =>
    unfold Kept at ih ⊢
    rw [since_concat, contents_concat]
    cases c with
    | put key value =>
      rw [replayed_put]
      by_cases hk : k = key
      · simp [Change.apply, hk]
      · simpa [Change.apply, hk, Ne.symm hk] using ih
    | cut start =>
      rw [replayed_cut]
      by_cases hk : k < start
      · simpa [Change.apply, hk] using ih
      · simp [Change.apply, hk]

end

theorem replayed_of_contents {changes : List (Change K V)} {k : K} {v : V}
    (h : contents changes k = some v) : replayed changes k = some v := by
  by_cases hkept : Kept changes k
  · exact ((contents_eq changes k).1 hkept).1.symm.trans h
  · rw [(contents_eq changes k).2 hkept] at h
    cases h

private theorem isSome_replayed_iff (changes : List (Change K V)) (k : K) :
    (replayed changes k).isSome ↔ ∃ v, .put k v ∈ changes := by
  induction changes using List.reverseRecOn with
  | nil => simp [replayed, contents]
  | append_singleton changes c ih =>
    cases c with
    | put key value =>
      rw [replayed_put]
      by_cases hk : k = key
      · simp [hk]
      · simpa [hk] using ih
    | cut start => simpa [replayed_cut] using ih

/-- The puts alone give the map just if each key put is kept. -/
theorem contents_eq_replayed_iff (changes : List (Change K V)) :
    contents changes = replayed changes ↔ ∀ k v, .put k v ∈ changes → Kept changes k := by
  constructor
  · intro h k v hput
    by_contra hkept
    have hsome := (isSome_replayed_iff changes k).mpr ⟨v, hput⟩
    rw [← h, (contents_eq changes k).2 hkept] at hsome
    cases hsome
  · intro h
    funext k
    by_cases hkept : Kept changes k
    · exact ((contents_eq changes k).1 hkept).1
    · rw [(contents_eq changes k).2 hkept, eq_comm, ← Option.not_isSome_iff_eq_none,
        isSome_replayed_iff]
      exact fun ⟨v, hput⟩ => hkept (h k v hput)

end Kaelix.Lib
