import Mathlib.Data.List.AList
import Mathlib.Data.Finset.Card

/-!
# Finite maps with an iteration order

A hash map is an association list without repeated keys, `AList` of Mathlib.
-/

namespace Kaelix.Lib

/-- A finite map, in the order of its insertions. -/
abbrev HashMap (K V : Type) := AList (fun _ : K => V)

variable {K V : Type}

/-- All values, one for each key. -/
def HashMap.values (m : HashMap K V) : List V := m.entries.map Sigma.snd

/-- The map with these keys and the values that a function gives them. -/
def HashMap.ofKeys (keys : List K) (h : keys.Nodup) (f : K → V) : HashMap K V :=
  { entries := keys.map fun k => ⟨k, f k⟩
    nodupKeys := by
      rw [List.NodupKeys, List.keys, List.map_map]
      exact (List.map_id keys).symm ▸ h }

theorem HashMap.keys_ofKeys (keys : List K) (h : keys.Nodup) (f : K → V) :
    (HashMap.ofKeys keys h f).keys = keys := by
  rw [AList.keys, List.keys, HashMap.ofKeys, List.map_map]
  exact List.map_id keys

theorem HashMap.values_ofKeys (keys : List K) (h : keys.Nodup) (f : K → V) :
    (HashMap.ofKeys keys h f).values = keys.map f := by
  rw [HashMap.values, HashMap.ofKeys, List.map_map]
  rfl

/-- Every value changed by `f`. -/
def HashMap.mapValues (f : V → V) (m : HashMap K V) : HashMap K V :=
  { entries := m.entries.map fun e => ⟨e.1, f e.2⟩
    nodupKeys := by
      rw [List.NodupKeys, List.keys, List.map_map]
      exact m.nodupKeys }

theorem HashMap.values_mapValues (f : V → V) (m : HashMap K V) :
    (m.mapValues f).values = m.values.map f := by
  rw [HashMap.values, HashMap.mapValues, HashMap.values, List.map_map, List.map_map]
  rfl

/-- Every value replaced by one that is computed from its key and itself. -/
def HashMap.mapEntries (f : K → V → V) (m : HashMap K V) : HashMap K V :=
  { entries := m.entries.map fun e => ⟨e.1, f e.1 e.2⟩
    nodupKeys := by
      rw [List.NodupKeys, List.keys, List.map_map]
      exact m.nodupKeys }

theorem HashMap.length_values (m : HashMap K V) : m.values.length = m.keys.length := by
  rw [HashMap.values, List.length_map, AList.keys, List.keys, List.length_map]

variable [DecidableEq K]

theorem HashMap.lookup_insert_eq (m : HashMap K V) (k k' : K) (v : V) :
    (m.insert k v).lookup k' =
      if k' = k then some v else m.lookup k' := by
  by_cases h : k' = k
  · subst h
    rw [if_pos rfl]
    exact AList.lookup_insert m
  · rw [if_neg h]
    exact AList.lookup_insert_ne h

theorem HashMap.lookup_erase_eq (m : HashMap K V) (k k' : K) :
    (m.erase k).lookup k' =
      if k' = k then none else m.lookup k' := by
  by_cases h : k' = k
  · subst h
    rw [if_pos rfl]
    exact AList.lookup_erase k' m
  · rw [if_neg h]
    exact AList.lookup_erase_ne h

/-- The map without these keys. -/
def HashMap.eraseAll (keys : List K) (m : HashMap K V) : HashMap K V :=
  keys.foldl (fun m k => m.erase k) m

theorem HashMap.lookup_eraseAll (keys : List K) (m : HashMap K V) (k : K) :
    (HashMap.eraseAll keys m).lookup k =
      if k ∈ keys then none else m.lookup k := by
  induction keys generalizing m with
  | nil => rfl
  | cons k' keys ih =>
    have hrest : (HashMap.eraseAll (k' :: keys) m).lookup k = _ := ih (m.erase k')
    rw [hrest, HashMap.lookup_erase_eq]
    by_cases hk : k = k'
    · simp [hk]
    · simp [hk]

theorem HashMap.lookup_mapValues (f : V → V) (m : HashMap K V) (k : K) :
    (m.mapValues f).lookup k = (m.lookup k).map f := by
  ext v
  rw [Option.map_eq_some_iff]
  constructor
  · intro h
    obtain ⟨⟨k', v'⟩, hmem, heq⟩ := List.mem_map.mp (AList.mem_lookup_iff.mp h)
    cases heq
    exact ⟨v', AList.mem_lookup_iff.mpr hmem, rfl⟩
  · rintro ⟨v', hv', rfl⟩
    exact AList.mem_lookup_iff.mpr (List.mem_map.mpr ⟨⟨k, v'⟩, AList.mem_lookup_iff.mp hv', rfl⟩)

variable {m : HashMap K V} {k : K} {v : V}

theorem HashMap.mem_values_of_lookup (h : m.lookup k = some v) : v ∈ m.values :=
  List.mem_map.mpr ⟨⟨k, v⟩, AList.mem_lookup_iff.mp h, rfl⟩

theorem HashMap.countP_values_insert (m : HashMap K V) (k : K) (v : V) (p : V → Bool) :
    (HashMap.values (m.insert k v)).countP p =
      (HashMap.values (m.erase k)).countP p + (if p v then 1 else 0) := by
  change (List.map Sigma.snd (⟨k, v⟩ :: List.kerase k m.entries)).countP p = _
  rw [List.map_cons, List.countP_cons]
  rfl

theorem HashMap.countP_values_erase (h : m.lookup k = some v) (p : V → Bool) :
    m.values.countP p = (HashMap.values (m.erase k)).countP p + (if p v then 1 else 0) := by
  have hk : k ∈ m.entries.keys := AList.lookup_isSome.mp (h ▸ rfl)
  obtain ⟨b, l₁, l₂, hnot, heq, herase⟩ := List.exists_of_kerase hk
  have hb : b = v := by
    have hmem : ⟨k, b⟩ ∈ m.entries := by rw [heq]; simp
    have := AList.mem_lookup_iff.mpr hmem
    rw [h] at this
    exact (Option.some.inj this).symm
  change (m.entries.map Sigma.snd).countP p =
    ((List.kerase k m.entries).map Sigma.snd).countP p + _
  rw [herase, heq, hb]
  simp only [List.map_append, List.map_cons, List.countP_append, List.countP_cons]
  omega

theorem HashMap.erase_of_lookup_none (h : m.lookup k = none) : m.erase k = m := by
  apply AList.ext
  exact List.kerase_of_notMem_keys (AList.lookup_eq_none.mp h)

theorem HashMap.perm_entries_of_lookup_eq {m m' : HashMap K V}
    (h : ∀ k, m.lookup k = m'.lookup k) : m.entries.Perm m'.entries := by
  apply (List.perm_ext_iff_of_nodup m.nodupKeys.nodup m'.nodupKeys.nodup).mpr
  rintro ⟨k, v⟩
  rw [← AList.mem_lookup_iff, ← AList.mem_lookup_iff, h]

theorem HashMap.length_keys_insert (m : HashMap K V) (k : K) (v : V) :
    (m.insert k v).keys.length =
      if (m.lookup k).isSome then m.keys.length else m.keys.length + 1 := by
  rw [AList.keys_insert, List.length_cons]
  split
  · next h =>
    have hmem : k ∈ m.keys := AList.lookup_isSome.mp h
    have hpos : 0 < m.keys.length := List.length_pos_of_mem hmem
    rw [List.length_erase_of_mem hmem]
    omega
  · next h => rw [List.erase_of_not_mem fun hmem => h (AList.lookup_isSome.mpr hmem)]

theorem HashMap.length_keys_eraseAll {keys : List K} (hnd : keys.Nodup)
    (hpres : ∀ k ∈ keys, (m.lookup k).isSome) :
    (HashMap.eraseAll keys m).keys.length = m.keys.length - keys.length := by
  induction keys generalizing m with
  | nil => rfl
  | cons k keys ih =>
    obtain ⟨hk, hrest⟩ := List.nodup_cons.mp hnd
    have hmem : k ∈ m.keys := AList.lookup_isSome.mp (hpres k List.mem_cons_self)
    have hlen : (m.erase k).keys.length = m.keys.length - 1 := by
      rw [AList.keys_erase, List.length_erase_of_mem hmem]
    have hpres' : ∀ k' ∈ keys, ((m.erase k).lookup k').isSome := by
      intro k' hk'
      have hne : k' ≠ k := fun heq => hk (heq ▸ hk')
      rw [HashMap.lookup_erase_eq, if_neg hne]
      exact hpres k' (List.mem_cons_of_mem k hk')
    have hstep : (HashMap.eraseAll (k :: keys) m).keys.length =
        (m.erase k).keys.length - keys.length := ih hrest hpres'
    rw [hstep, hlen, List.length_cons]
    omega

theorem HashMap.exists_keys_of_countP (m : HashMap K V) (p : V → Bool) :
    ∃ Q : Finset K, Q.card = m.values.countP p ∧
      ∀ k ∈ Q, ∃ v, m.lookup k = some v ∧ p v = true := by
  let es := m.entries.filter fun e => p e.2
  have hsub : (es.map Sigma.fst).Sublist m.keys := (List.filter_sublist).map Sigma.fst
  have hnd : (es.map Sigma.fst).Nodup := hsub.nodup m.keys_nodup
  refine ⟨(es.map Sigma.fst).toFinset, ?_, ?_⟩
  · rw [List.toFinset_card_of_nodup hnd, List.length_map, HashMap.values,
      List.countP_map, List.countP_eq_length_filter]
    rfl
  · intro k hk
    obtain ⟨e, he, rfl⟩ := List.mem_map.mp (List.mem_toFinset.mp hk)
    obtain ⟨hmem, hp⟩ := List.mem_filter.mp he
    exact ⟨e.2, AList.mem_lookup_iff.mpr hmem, hp⟩

section

variable (key : V → K)

/-- Values written one after another, each under a key of its own. -/
def HashMap.writeAll (writes : List V) (m : HashMap K V) : HashMap K V :=
  writes.foldl (fun m v => m.insert (key v) v) m

/-- The value is the one that its key finds. -/
def HashMap.Holds (m : HashMap K V) (v : V) : Prop := m.lookup (key v) = some v

variable {writes : List V}

theorem HashMap.exists_holds_writeAll (hv : v ∈ writes) (m : HashMap K V) :
    ∃ last ∈ writes, key last = key v ∧ (HashMap.writeAll key writes m).Holds key last := by
  induction writes using List.reverseRecOn with
  | nil => cases hv
  | append_singleton writes w ih =>
    have hwrite : HashMap.writeAll key (writes ++ [w]) m =
        (HashMap.writeAll key writes m).insert (key w) w := List.foldl_concat ..
    rw [hwrite]
    by_cases hkey : key w = key v
    · exact ⟨w, List.mem_append_right _ (List.mem_singleton_self w), hkey, AList.lookup_insert _⟩
    · have hv' : v ∈ writes := by
        rcases List.mem_append.mp hv with h | h
        · exact h
        · exact absurd (List.mem_singleton.mp h ▸ rfl) hkey
      obtain ⟨last, hlast, hsame, hholds⟩ := ih hv'
      refine ⟨last, List.mem_append_left _ hlast, hsame, ?_⟩
      exact (AList.lookup_insert_ne (hsame ▸ Ne.symm hkey)).trans hholds

theorem HashMap.lookup_writeAll_eq_none {m : HashMap K V} (hk : k ∉ writes.map key)
    (hm : m.lookup k = none) : (HashMap.writeAll key writes m).lookup k = none := by
  induction writes generalizing m with
  | nil => exact hm
  | cons v writes ih =>
    rw [List.map_cons, List.mem_cons, not_or] at hk
    refine ih hk.2 ?_
    rw [HashMap.lookup_insert_eq, if_neg hk.1, hm]

theorem HashMap.values_writeAll (hdist : (writes.map key).Nodup) :
    (HashMap.writeAll key writes ∅).values = writes.reverse := by
  induction writes using List.reverseRecOn with
  | nil => rfl
  | append_singleton writes w ih =>
    rw [List.map_append, List.map_singleton] at hdist
    have hnot : key w ∉ writes.map key := fun hmem =>
      (List.nodup_append.mp hdist).2.2 _ hmem _ (List.mem_singleton_self _) rfl
    have hfresh : (HashMap.writeAll key writes ∅).lookup (key w) = none :=
      HashMap.lookup_writeAll_eq_none key hnot rfl
    have hwrite : HashMap.writeAll key (writes ++ [w]) ∅ =
        (HashMap.writeAll key writes ∅).insert (key w) w := List.foldl_concat ..
    have hvals : HashMap.values ((HashMap.writeAll key writes ∅).insert (key w) w) =
        w :: HashMap.values ((HashMap.writeAll key writes ∅).erase (key w)) := rfl
    rw [hwrite, hvals, HashMap.erase_of_lookup_none hfresh,
      ih (List.nodup_append.mp hdist).1, List.reverse_append]
    rfl

theorem HashMap.forall_holds_writeAll_iff (writes : List V) (m : HashMap K V) :
    (∀ v ∈ writes, (HashMap.writeAll key writes m).Holds key v) ↔
      ∀ v ∈ writes, ∀ w ∈ writes, key v = key w → v = w := by
  constructor
  · intro hall v hv w hw hkey
    have hfound := hall v hv
    rw [HashMap.Holds, hkey, hall w hw] at hfound
    exact (Option.some.inj hfound).symm
  · intro hdist v hv
    obtain ⟨last, hlast, hkey, hholds⟩ := HashMap.exists_holds_writeAll key hv m
    exact hdist last hlast v hv hkey ▸ hholds

theorem HashMap.forall_not_holds_writeAll_iff {values : List V} (hsub : writes ⊆ values)
    (m : HashMap K V) :
    (∀ v ∈ values, ¬ (HashMap.writeAll key writes m).Holds key v) ↔
      writes = [] ∧ ∀ v ∈ values, ¬ m.Holds key v := by
  constructor
  · intro hnone
    have hnil : writes = [] := by
      refine List.eq_nil_iff_forall_not_mem.mpr fun v hv => ?_
      obtain ⟨last, hlast, -, hholds⟩ := HashMap.exists_holds_writeAll key hv m
      exact hnone last (hsub hlast) hholds
    subst hnil
    exact ⟨rfl, hnone⟩
  · rintro ⟨rfl, hnone⟩
    exact hnone

end

end Kaelix.Lib
