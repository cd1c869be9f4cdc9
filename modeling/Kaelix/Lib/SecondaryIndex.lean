import Kaelix.Lib.HashMap

/-!
# Secondary indices

A map of records `m` may come with an index: a map from keys to the sets of identifiers whose
record has that key.  `key` reads the key off a record; a record without one is not in the index.
The index is exact if it relates a key to an identifier exactly when the record of that identifier
has the key, and none of its sets is empty.
-/

namespace Kaelix.Lib

/-- A finite set. -/
abbrev HashSet (α : Type) := HashMap α Unit

/-- The identifiers under each key. -/
abbrev Index (K I : Type) := HashMap K (HashSet I)

variable {K I V : Type} [DecidableEq K] [DecidableEq I]

namespace Index

section

variable (idx : Index K I)

/-- Add an identifier to the set of a key, which is made if need be. -/
def add (k : K) (id : I) : Index K I :=
  idx.insert k (((idx.lookup k).getD ∅).insert id ())

/-- Take an identifier out of the set of a key, and the set if it gets empty. -/
def remove (k : K) (id : I) : Index K I :=
  match idx.lookup k with
  | some ids =>
    let ids := ids.erase id
    if ids.keys.isEmpty then idx.erase k else idx.insert k ids
  | none => idx

/-- Take an identifier out of the set of a key, which stays even if it gets empty. -/
def discard (k : K) (id : I) : Index K I :=
  match idx.lookup k with
  | some ids => idx.insert k (ids.erase id)
  | none => idx

/-- Nothing is added without a key. -/
def addKey (k : Option K) (id : I) : Index K I :=
  match k with
  | some k => idx.add k id
  | none => idx

/-- Nothing is removed without a key. -/
def removeKey (k : Option K) (id : I) : Index K I :=
  match k with
  | some k => idx.remove k id
  | none => idx

/-- The records at a key, in the order of its set. -/
def select (m : HashMap I V) (k : K) : List V :=
  match idx.lookup k with
  | some ids => ids.keys.filterMap fun id => m.lookup id
  | none => []

/-- The identifier is under the key. -/
def Rel (k : K) (id : I) : Prop :=
  ∃ ids, idx.lookup k = some ids ∧ id ∈ ids

/-- There is no key without an identifier. -/
def NoEmpty : Prop := ∀ k ids, idx.lookup k = some ids → ∃ id, id ∈ ids

end

/-! ## The operations as operations on relations -/

variable {idx : Index K I}

variable {id id' : I} {k k' : K}

theorem rel_add : (idx.add k id).Rel k' id' ↔ (k' = k ∧ id' = id) ∨ idx.Rel k' id' := by
  by_cases hk : k' = k
  · subst hk
    have hrel : idx.Rel k' id' ↔ id' ∈ (idx.lookup k').getD ∅ := by
      rw [Rel]
      cases idx.lookup k' with
      | _ => simp
    rw [hrel, Rel, add, AList.lookup_insert]
    simp [AList.mem_insert]
  · rw [Rel, add, AList.lookup_insert_ne hk]
    simp [hk, Rel]

theorem noEmpty_add (h : idx.NoEmpty) (k : K) (id : I) : (idx.add k id).NoEmpty := by
  intro k' ids hids
  rw [add, HashMap.lookup_insert_eq] at hids
  split at hids
  · cases hids
    exact ⟨id, (AList.mem_insert _).mpr (.inl rfl)⟩
  · exact h k' ids hids

omit [DecidableEq I] in
theorem keys_not_isEmpty_iff (ids : HashSet I) : (!ids.keys.isEmpty) = true ↔ ∃ id, id ∈ ids := by
  rw [Bool.not_eq_true', List.isEmpty_eq_false_iff_exists_mem]
  rfl

theorem lookup_remove_self (k : K) (id : I) :
    (idx.remove k id).lookup k =
      ((idx.lookup k).map (AList.erase id)).filter fun ids => !ids.keys.isEmpty := by
  rw [remove]
  cases hk : idx.lookup k with
  | none => exact hk
  | some ids =>
    dsimp only
    rw [Option.map_some, Option.filter_some]
    by_cases hemp : (ids.erase id).keys.isEmpty = true
    · rw [if_pos hemp, hemp]
      exact AList.lookup_erase k idx
    · rw [if_neg hemp, Bool.eq_false_iff.mpr hemp]
      exact AList.lookup_insert idx

private theorem lookup_remove_of_ne (h : k' ≠ k) (id : I) :
    (idx.remove k id).lookup k' = idx.lookup k' := by
  rw [remove]
  cases idx.lookup k with
  | none => rfl
  | some =>
    dsimp only
    split
    · exact AList.lookup_erase_ne h
    · exact AList.lookup_insert_ne h

theorem rel_remove : (idx.remove k id).Rel k' id' ↔ idx.Rel k' id' ∧ ¬ (k' = k ∧ id' = id) := by
  by_cases hk : k' = k
  · subst hk
    simp only [Rel, lookup_remove_self, Option.filter_eq_some_iff, Option.map_eq_some_iff,
      keys_not_isEmpty_iff]
    constructor
    · rintro ⟨_, ⟨⟨ids, hids, rfl⟩, -⟩, hmem⟩
      obtain ⟨hne, hmem⟩ := AList.mem_erase.mp hmem
      exact ⟨⟨ids, hids, hmem⟩, fun h => hne h.2⟩
    · rintro ⟨⟨ids, hids, hmem⟩, hne⟩
      have hleft : id' ∈ ids.erase id :=
        AList.mem_erase.mpr ⟨fun h => hne ⟨trivial, h⟩, hmem⟩
      exact ⟨_, ⟨⟨ids, hids, rfl⟩, id', hleft⟩, hleft⟩
  · rw [Rel, lookup_remove_of_ne hk]
    exact ⟨fun h => ⟨h, fun h' => hk h'.1⟩, fun h => h.1⟩

theorem noEmpty_remove (h : idx.NoEmpty) (k : K) (id : I) : (idx.remove k id).NoEmpty := by
  intro k' ids hids
  by_cases hk : k' = k
  · subst hk
    rw [lookup_remove_self, Option.filter_eq_some_iff] at hids
    exact (keys_not_isEmpty_iff ids).mp hids.2
  · rw [lookup_remove_of_ne hk] at hids
    exact h k' ids hids

theorem lookup_discard (k k' : K) (id : I) :
    (idx.discard k id).lookup k' =
      if k' = k then (idx.lookup k).map (AList.erase id) else idx.lookup k' := by
  rw [discard]
  cases hk : idx.lookup k with
  | none =>
    by_cases h : k' = k
    · subst h
      simp [hk]
    · simp [h]
  | some => exact HashMap.lookup_insert_eq idx k k' _

private theorem rel_discard : (idx.discard k id).Rel k' id' ↔ idx.Rel k' id' ∧ ¬ (k' = k ∧ id' = id)
    := by
  rw [Rel, lookup_discard]
  by_cases hk : k' = k
  · subst hk
    simp [Rel, AList.mem_erase]
    tauto
  · simp [hk, Rel]

omit [DecidableEq I] in
theorem rel_erase {id' : I} : Rel (idx.erase k) k' id' ↔ idx.Rel k' id' ∧ k' ≠ k := by
  rw [Rel, HashMap.lookup_erase_eq]
  by_cases hk : k' = k
  · simp [hk]
  · simp [hk, Rel]

theorem rel_foldl_discard {keys : List K} :
    (keys.foldl (fun (idx : Index K I) k => idx.discard k id) idx).Rel k' id' ↔
      idx.Rel k' id' ∧ ¬ (k' ∈ keys ∧ id' = id) := by
  induction keys generalizing idx with
  | nil => simp
  | cons k keys ih =>
    rw [List.foldl_cons, ih, rel_discard, List.mem_cons]
    tauto

theorem lookup_foldl_discard {keys : List K} {id : I} (h : idx.lookup k' = none) :
    (keys.foldl (fun (idx : Index K I) k => idx.discard k id) idx).lookup k' = none := by
  induction keys generalizing idx with
  | nil => exact h
  | cons k keys ih =>
    apply ih
    rw [lookup_discard]
    split
    · next hk => rw [← hk, h, Option.map_none]
    · exact h

theorem rel_addKey {k : Option K} :
    (idx.addKey k id).Rel k' id' ↔ (k = some k' ∧ id' = id) ∨ idx.Rel k' id' := by
  cases k with
  | none => simp [addKey]
  | some => simp [addKey, rel_add, eq_comm]

theorem rel_removeKey {k : Option K} :
    (idx.removeKey k id).Rel k' id' ↔ idx.Rel k' id' ∧ ¬ (k = some k' ∧ id' = id) := by
  cases k with
  | none => simp [removeKey]
  | some => simp [removeKey, rel_remove, eq_comm]

theorem noEmpty_addKey (h : idx.NoEmpty) (k : Option K) (id : I) : (idx.addKey k id).NoEmpty := by
  cases k with
  | none => exact h
  | some k => exact noEmpty_add h k id

theorem noEmpty_removeKey (h : idx.NoEmpty) (k : Option K) (id : I) :
    (idx.removeKey k id).NoEmpty := by
  cases k with
  | none => exact h
  | some k => exact noEmpty_remove h k id

/-! ## Exact indices -/

/-- The index holds what the map has, and no more. -/
structure Exact (idx : Index K I) (key : V → Option K) (m : HashMap I V) : Prop where
  noEmpty : idx.NoEmpty
  rel : ∀ k id, idx.Rel k id ↔ ∃ v, m.lookup id = some v ∧ key v = some k

variable {key : V → Option K} {m : HashMap I V} {id : I}

theorem exact_empty : Exact (∅ : Index K I) key (∅ : HashMap I V) where
  noEmpty k ids h := by cases h
  rel k id := by simp [Rel]

omit [DecidableEq K] in
theorem exists_lookup_insert {v : V} {id' : I} :
    (∃ w, (m.insert id v).lookup id' = some w ∧ key w = some k) ↔
      (id' = id ∧ key v = some k) ∨
        (id' ≠ id ∧ ∃ w, m.lookup id' = some w ∧ key w = some k) := by
  by_cases h : id' = id
  · subst h
    simp
  · simp [AList.lookup_insert_ne h, h]

section

variable (h : Exact idx key m)
include h

theorem Exact.add_iff (v : V) :
    Exact (idx.addKey (key v) id) key (m.insert id v) ↔
      ∀ old, m.lookup id = some old → ∀ k, key old = some k → key v = some k := by
  constructor
  · intro hnew old hold k hk
    have hrel : (idx.addKey (key v) id).Rel k id :=
      rel_addKey.mpr (.inr ((h.rel k id).mpr ⟨old, hold, hk⟩))
    rcases exists_lookup_insert.mp ((hnew.rel k id).mp hrel) with ⟨-, hv⟩ | ⟨hne, -⟩
    · exact hv
    · exact absurd rfl hne
  · intro hkeep
    refine ⟨noEmpty_addKey h.noEmpty _ _, fun k id' => ?_⟩
    rw [rel_addKey, exists_lookup_insert, h.rel k id']
    by_cases hid : id' = id
    · subst hid
      simp only [true_and, and_true, ne_eq, not_true, false_and, or_false]
      exact or_iff_left_of_imp fun ⟨old, hold, hk⟩ => hkeep old hold k hk
    · simp [hid]

section

variable {old : V} (hold : m.lookup id = some old)
include hold

theorem Exact.remove :
    Exact (idx.removeKey (key old) id) key (m.erase id) := by
  refine ⟨noEmpty_removeKey h.noEmpty _ _, fun k id' => ?_⟩
  rw [rel_removeKey, h.rel k id', HashMap.lookup_erase_eq]
  by_cases hid : id' = id
  · subst hid
    simp [hold]
  · simp [hid]

theorem Exact.replace (v : V) :
    Exact ((idx.removeKey (key old) id).addKey (key v) id) key (m.insert id v) := by
  refine ⟨noEmpty_addKey (noEmpty_removeKey h.noEmpty _ _) _ _, fun k id' => ?_⟩
  rw [rel_addKey, rel_removeKey, exists_lookup_insert, h.rel k id']
  by_cases hid : id' = id
  · subst hid
    simp [hold]
  · simp [hid]

theorem Exact.replace_same {v : V} (hkey : key old = key v) :
    Exact idx key (m.insert id v) := by
  refine ⟨h.noEmpty, fun k id' => ?_⟩
  rw [exists_lookup_insert, h.rel k id']
  by_cases hid : id' = id
  · subst hid
    simp [hold, hkey]
  · simp [hid]

end

end

/-! ## Looking up by key -/

private theorem filterMap_lookup {es : List (Sigma fun _ : I => V)}
    (h : ∀ e ∈ es, m.lookup e.1 = some e.2) :
    (es.map Sigma.fst).filterMap (fun id => m.lookup id) = es.map Sigma.snd := by
  induction es with
  | nil => rfl
  | cons e es ih =>
    have ih := ih fun e' he' => h e' (List.mem_cons_of_mem _ he')
    rw [List.map_cons, List.filterMap_cons, h e List.mem_cons_self]
    dsimp only
    rw [ih, List.map_cons]

theorem Exact.select_perm (h : Exact idx key m) (k : K) :
    (idx.select m k).Perm (m.values.filter fun v => decide (key v = some k)) := by
  let es := m.entries.filter fun e => decide (key e.2 = some k)
  have hes : ∀ e ∈ es, m.lookup e.1 = some e.2 := fun e he =>
    AList.mem_lookup_iff.mpr (List.mem_of_mem_filter he)
  have hvals : (m.values.filter fun v => decide (key v = some k)) = es.map Sigma.snd := by
    rw [HashMap.values, List.filter_map]
    rfl
  have hmem : ∀ id, id ∈ es.map Sigma.fst ↔ idx.Rel k id := by
    intro id
    rw [h.rel k id, List.mem_map]
    constructor
    · rintro ⟨e, he, rfl⟩
      exact ⟨e.2, hes e he, of_decide_eq_true (List.mem_filter.mp he).2⟩
    · rintro ⟨v, hv, hk⟩
      refine ⟨⟨id, v⟩, List.mem_filter.mpr ⟨AList.mem_lookup_iff.mp hv, ?_⟩, rfl⟩
      exact decide_eq_true hk
  rw [hvals, ← filterMap_lookup hes, select]
  cases hk : idx.lookup k with
  | none =>
    have hnil : es.map Sigma.fst = [] := by
      rw [List.eq_nil_iff_forall_not_mem]
      intro id hid
      obtain ⟨ids, hids, -⟩ := (hmem id).mp hid
      rw [hk] at hids
      cases hids
    rw [hnil]
    exact List.Perm.refl _
  | some ids =>
    apply List.Perm.filterMap
    have hnd : (es.map Sigma.fst).Nodup :=
      ((List.filter_sublist).map Sigma.fst).nodup m.keys_nodup
    rw [List.perm_ext_iff_of_nodup ids.keys_nodup hnd]
    intro id
    rw [hmem id, ← AList.mem_keys]
    simp [Rel, hk]

theorem not_select_perm (key : V → Option K) {v : V} (hrel : idx.Rel k id)
    (hv : m.lookup id = some v) (hkey : key v ≠ some k) :
    ¬ (idx.select m k).Perm (m.values.filter fun v => decide (key v = some k)) := by
  intro hperm
  obtain ⟨ids, hids, hid⟩ := hrel
  have hmem : v ∈ idx.select m k := by
    rw [select, hids]
    exact List.mem_filterMap.mpr ⟨id, AList.mem_keys.mp hid, hv⟩
  exact hkey (of_decide_eq_true (List.mem_filter.mp (hperm.mem_iff.mp hmem)).2)

end Index

end Kaelix.Lib
