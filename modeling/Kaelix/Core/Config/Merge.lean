import Kaelix.Core.Config.Loader

/-!
# Merging configurations

`merge_config` of `config/loader.rs` writes the entries of one table over another: where both hold
tables these are merged, and elsewhere the override's value counts.
-/

namespace Kaelix.Core.Config

variable {F D : Type}

namespace ConfigLoader

mutual

/-- Tables are merged, anything else is replaced. -/
def mergeConfig : Value F D → Value F D → Value F D
  | .table baseTable, .table overrideTable => .table (mergeTable baseTable overrideTable)
  | base, _ => base

def mergeTable (baseTable : List (String × Value F D)) :
    List (String × Value F D) → List (String × Value F D)
  | [] => baseTable
  | (key, value) :: rest =>
    match baseTable.lookup key with
    | some existingValue =>
      if existingValue.isTable && value.isTable then
        mergeTable (insertKey key (mergeConfig existingValue value) baseTable) rest
      else mergeTable (insertKey key value baseTable) rest
    | none => mergeTable (insertKey key value baseTable) rest

end

def mergeEntry (existing : Option (Value F D)) (value : Value F D) : Value F D :=
  match existing with
  | some existingValue =>
    if existingValue.isTable && value.isTable then mergeConfig existingValue value else value
  | none => value

end ConfigLoader

/-! ## Tables whose keys are distinct -/

def keys {V : Type} (entries : List (String × V)) : List String := entries.map Prod.fst

section

variable {V : Type} {key : String} {v : V} {entries : List (String × V)}

theorem lookup_isSome_iff : (entries.lookup key).isSome ↔ key ∈ keys entries := by
  induction entries with
  | nil => simp [keys]
  | cons entry entries ih =>
    by_cases h : key = entry.1
    · simp [keys, h]
    · have hmem : key ∈ keys (entry :: entries) ↔ key ∈ keys entries := by simp [keys, h]
      rw [hmem, ← ih, List.lookup_cons, beq_false_of_ne h]

theorem nodup_keys_cons {entry : String × V} :
    (keys (entry :: entries)).Nodup ↔ entry.1 ∉ keys entries ∧ (keys entries).Nodup :=
  List.nodup_cons

theorem lookup_of_mem (hkeys : (keys entries).Nodup) (h : (key, v) ∈ entries) :
    entries.lookup key = some v := by
  induction entries with
  | nil => cases h
  | cons entry entries ih =>
    rw [nodup_keys_cons] at hkeys
    cases h with
    | head => exact List.lookup_cons_self
    | tail _ h =>
      have hne : key ≠ entry.1 := fun heq =>
        hkeys.1 (heq ▸ List.mem_map_of_mem h)
      rw [List.lookup_cons, beq_false_of_ne hne]
      exact ih hkeys.2 h

theorem mem_insertKey {entry : String × V} (h : entry ∈ insertKey key v entries) :
    entry = (key, v) ∨ entry ∈ entries := by
  induction entries with
  | nil => simpa [insertKey] using h
  | cons first entries ih =>
    rw [insertKey] at h
    split at h <;> simp only [List.mem_cons] at h ⊢ <;> grind

theorem mem_keys_insertKey {key' : String} :
    key' ∈ keys (insertKey key v entries) ↔ key' = key ∨ key' ∈ keys entries := by
  rw [← lookup_isSome_iff, ← lookup_isSome_iff, lookup_insertKey]
  split <;> simp [*]

theorem nodup_keys_insertKey (h : (keys entries).Nodup) :
    (keys (insertKey key v entries)).Nodup := by
  induction entries with
  | nil => simp [insertKey, keys]
  | cons first entries ih =>
    rw [nodup_keys_cons] at h
    rw [insertKey]
    split
    · next heq => exact nodup_keys_cons.mpr (heq ▸ h)
    · next hne =>
        rw [nodup_keys_cons, mem_keys_insertKey]
        exact ⟨not_or.mpr ⟨hne, h.1⟩, ih h.2⟩

end

variable {key : String} {v : Value F D} {path : List String}

namespace Value

mutual

/-- No table, in whatever tables it is, has two entries for one key. -/
def WellFormed : Value F D → Prop
  | .table entries => (keys entries).Nodup ∧ AllWellFormed entries
  | _ => True

/-- All values are well formed. -/
def AllWellFormed : List (String × Value F D) → Prop
  | [] => True
  | (_, value) :: rest => value.WellFormed ∧ AllWellFormed rest

end

variable {entries : List (String × Value F D)}

private theorem allWellFormed_iff : AllWellFormed entries ↔ ∀ entry ∈ entries, entry.2.WellFormed
    := by
  induction entries with
  | nil => simp [AllWellFormed]
  | cons entry entries ih => simp [AllWellFormed, ih]

theorem wellFormed_table_iff :
    (table entries).WellFormed ↔
      (keys entries).Nodup ∧ ∀ entry ∈ entries, entry.2.WellFormed := by
  rw [WellFormed, allWellFormed_iff]

theorem WellFormed.of_lookup (h : (table entries).WellFormed) (hv : entries.lookup key = some v) :
    v.WellFormed := by
  obtain ⟨before, after, rfl, -⟩ := List.lookup_eq_some_iff.mp hv
  exact (wellFormed_table_iff.mp h).2 (key, v) (by simp)

theorem WellFormed.insertKey (h : (table entries).WellFormed) (hv : v.WellFormed) :
    (table (insertKey key v entries)).WellFormed := by
  rw [wellFormed_table_iff] at h ⊢
  refine ⟨nodup_keys_insertKey h.1, fun entry hent => ?_⟩
  rcases mem_insertKey hent with rfl | hmem
  · exact hv
  · exact h.2 entry hmem

theorem WellFormed.of_get {w : Value F D} (h : v.WellFormed) (hw : v.get path = some w) :
    w.WellFormed := by
  induction path generalizing v with
  | nil => exact Option.some.inj hw ▸ h
  | cons key path ih =>
    cases v with
    | table =>
      rw [get] at hw
      obtain ⟨v, hv, hw⟩ := Option.bind_eq_some_iff.mp hw
      exact ih (h.of_lookup hv) hw
    | _ => cases hw

theorem isTable_of_get (h : v.get path = some (table entries)) : v.isTable = true := by
  cases path with
  | nil => exact Option.some.inj h ▸ rfl
  | cons => cases v <;> first | rfl | cases h

theorem table_induction {P : Value F D → Prop} (leaf : ∀ v, v.isTable = false → P v)
    (table : ∀ entries, (∀ entry ∈ entries, P entry.2) → P (.table entries)) (v : Value F D) :
    P v := by
  match v with
  | .table entries =>
    refine table entries fun entry hent => ?_
    have : sizeOf entry < sizeOf entries := List.sizeOf_lt_of_mem hent
    have : sizeOf entry.2 < sizeOf entry := by cases entry; simp +arith
    exact table_induction leaf table entry.2
  | .string _ | .integer _ | .float _ | .boolean _ | .datetime _ | .array _ => exact leaf _ rfl
termination_by sizeOf v

end Value

/-! ## The merge at a key -/

namespace ConfigLoader

open Value

theorem mergeTable_cons (key : String) (value : Value F D)
    (baseTable rest : List (String × Value F D)) :
    mergeTable baseTable ((key, value) :: rest) =
      mergeTable (insertKey key (mergeEntry (baseTable.lookup key) value) baseTable) rest := by
  rw [mergeTable]
  cases baseTable.lookup key with
  | none => rfl
  | some =>
    simp only [mergeEntry]
    split <;> rfl

theorem mergeEntry_of_leaf (existing : Option (Value F D)) {value : Value F D}
    (h : value.isTable = false) : mergeEntry existing value = value := by
  cases existing <;> simp [mergeEntry, h]

theorem mergeEntry_table (entries overrides : List (String × Value F D)) :
    mergeEntry (some (.table entries)) (.table overrides) =
      mergeConfig (.table entries) (.table overrides) := rfl

theorem mergeEntry_cases (existing : Option (Value F D)) (value : Value F D) :
    mergeEntry existing value = value ∨
      ∃ entries overrides, existing = some (.table entries) ∧ value = .table overrides ∧
        mergeEntry existing value = mergeConfig (.table entries) (.table overrides) := by
  match existing, value with
  | some (.table entries), .table overrides => exact .inr ⟨entries, overrides, rfl, rfl, rfl⟩
  | some (.string _), _ | some (.integer _), _ | some (.float _), _ | some (.boolean _), _
  | some (.datetime _), _ | some (.array _), _ | none, _ => exact .inl rfl
  | _, .string _ | _, .integer _ | _, .float _ | _, .boolean _
  | _, .datetime _ | _, .array _ => exact .inl (mergeEntry_of_leaf _ rfl)

variable {baseTable overrideTable : List (String × Value F D)}

theorem lookup_mergeTable (hkeys : (keys overrideTable).Nodup) (key : String) :
    (mergeTable baseTable overrideTable).lookup key =
      ((overrideTable.lookup key).map (mergeEntry (baseTable.lookup key))).or
        (baseTable.lookup key) := by
  induction overrideTable generalizing baseTable with
  | nil => rfl
  | cons entry rest ih =>
    obtain ⟨k, value⟩ := entry
    rw [nodup_keys_cons] at hkeys
    rw [mergeTable_cons, ih hkeys.2, lookup_insertKey]
    by_cases h : key = k
    · have hrest : rest.lookup key = none := by
        rw [← Option.not_isSome_iff_eq_none, lookup_isSome_iff, h]
        exact hkeys.1
      rw [hrest, h, List.lookup_cons_self]
      simp
    · rw [if_neg h, List.lookup_cons, beq_false_of_ne h]

private theorem mergeTable_eq_base
    (h : ∀ key value, (key, value) ∈ overrideTable →
      ∃ w, baseTable.lookup key = some w ∧ mergeEntry (some w) value = w) :
    mergeTable baseTable overrideTable = baseTable := by
  induction overrideTable with
  | nil => rfl
  | cons entry rest ih =>
    obtain ⟨key, value⟩ := entry
    obtain ⟨w, hget, hw⟩ := h key value List.mem_cons_self
    rw [mergeTable_cons, hget, hw, insertKey_of_lookup hget]
    exact ih fun key value hmem => h key value (List.mem_cons_of_mem _ hmem)

theorem mergeEntry_self (hv : v.WellFormed) : mergeEntry (some v) v = v := by
  induction v using table_induction with
  | leaf v hleaf => exact mergeEntry_of_leaf _ hleaf
  | table entries ih =>
    obtain ⟨hkeys, hall⟩ := wellFormed_table_iff.mp hv
    rw [mergeEntry_table, mergeConfig, mergeTable_eq_base]
    intro key value hmem
    exact ⟨value, lookup_of_mem hkeys hmem, ih _ hmem (hall _ hmem)⟩

theorem mergeEntry_mergeEntry (hv : v.WellFormed) (existing : Option (Value F D)) :
    mergeEntry (some (mergeEntry existing v)) v = mergeEntry existing v := by
  induction v using table_induction generalizing existing with
  | leaf v hleaf => rw [mergeEntry_of_leaf _ hleaf, mergeEntry_of_leaf _ hleaf]
  | table overrides ih =>
    obtain ⟨hkeys, hall⟩ := wellFormed_table_iff.mp hv
    rcases mergeEntry_cases existing (.table overrides) with hself | ⟨entries, _, rfl, heq, -⟩
    · rw [hself, mergeEntry_self hv]
    · cases heq
      rw [mergeEntry_table, mergeConfig, mergeEntry_table, mergeConfig, mergeTable_eq_base]
      intro key value hmem
      refine ⟨mergeEntry (entries.lookup key) value, ?_, ih _ hmem (hall _ hmem) _⟩
      rw [lookup_mergeTable hkeys, lookup_of_mem hkeys hmem]
      rfl

/-! ## What a merge leaves -/

private theorem mem_keys_mergeTable :
    key ∈ keys (mergeTable baseTable overrideTable) ↔
      key ∈ keys baseTable ∨ key ∈ keys overrideTable := by
  induction overrideTable generalizing baseTable with
  | nil => simp [mergeTable, keys]
  | cons entry rest ih =>
    rw [mergeTable_cons, ih, mem_keys_insertKey]
    simp only [keys, List.map_cons, List.mem_cons]
    tauto

private theorem wellFormed_mergeTable
    (hbase : (Value.table baseTable).WellFormed)
    (h : ∀ entry ∈ overrideTable, ∀ existing, (∀ w, existing = some w → w.WellFormed) →
      (mergeEntry existing entry.2).WellFormed) :
    (Value.table (mergeTable baseTable overrideTable)).WellFormed := by
  induction overrideTable generalizing baseTable with
  | nil => exact hbase
  | cons entry rest ih =>
    rw [mergeTable_cons]
    refine ih (hbase.insertKey ?_) fun entry hmem => h entry (List.mem_cons_of_mem _ hmem)
    exact h entry List.mem_cons_self _ fun w hw => hbase.of_lookup hw

private theorem wellFormed_mergeEntry (hv : v.WellFormed) (existing : Option (Value F D))
    (hexisting : ∀ w, existing = some w → w.WellFormed) : (mergeEntry existing v).WellFormed := by
  induction v using table_induction generalizing existing with
  | leaf v hleaf => rwa [mergeEntry_of_leaf _ hleaf]
  | table overrides ih =>
    obtain ⟨-, hall⟩ := wellFormed_table_iff.mp hv
    rcases mergeEntry_cases existing (.table overrides) with hself | ⟨entries, _, rfl, heq, -⟩
    · rwa [hself]
    · cases heq
      rw [mergeEntry_table, mergeConfig]
      exact wellFormed_mergeTable (hexisting _ rfl)
        fun entry hmem => ih entry hmem (hall entry hmem)

variable {entries overrides : List (String × Value F D)}

private theorem get_mergeConfig {base override : Value F D} (hovr : override.WellFormed)
    (hb : base.get path = some (.table entries))
    (ho : override.get path = some (.table overrides)) :
    (mergeConfig base override).get path =
      some (mergeConfig (.table entries) (.table overrides)) := by
  induction path generalizing base override with
  | nil => rw [Option.some.inj hb, Option.some.inj ho, Value.get]
  | cons key path ih =>
    cases base with
    | table =>
      cases override with
      | table =>
        rw [Value.get] at hb ho
        obtain ⟨v, hv, hb⟩ := Option.bind_eq_some_iff.mp hb
        obtain ⟨w, hw, ho⟩ := Option.bind_eq_some_iff.mp ho
        have hmerge : mergeEntry (some v) w = mergeConfig v w := by
          simp [mergeEntry, isTable_of_get hb, isTable_of_get ho]
        rw [mergeConfig, Value.get, lookup_mergeTable (wellFormed_table_iff.mp hovr).1,
          hv, hw, Option.map_some, Option.some_or, hmerge, Option.bind_some]
        exact ih (hovr.of_lookup hw) hb ho
      | _ => cases ho
    | _ => cases hb

/-- Tables are merged key by key; other values are overridden. -/
structure MergesTables (entries overrides merged : List (String × Value F D)) : Prop where
  distinct : (keys merged).Nodup
  union : ∀ key, key ∈ keys merged ↔ key ∈ keys entries ∨ key ∈ keys overrides
  tables : ∀ key below above, entries.lookup key = some (.table below) →
    overrides.lookup key = some (.table above) →
    merged.lookup key = some (mergeConfig (.table below) (.table above))
  overridden : ∀ key value, overrides.lookup key = some value →
    (∀ existing, entries.lookup key = some existing →
      ¬ (existing.isTable = true ∧ value.isTable = true)) →
    merged.lookup key = some value
  kept : ∀ key, key ∉ keys overrides → merged.lookup key = entries.lookup key

private theorem mergesTables_mergeTable (hes : (Value.table entries).WellFormed)
    (hoverrides : (Value.table overrides).WellFormed) :
    MergesTables entries overrides (mergeTable entries overrides) := by
  have hget : ∀ key, (mergeTable entries overrides).lookup key = _ :=
    lookup_mergeTable (wellFormed_table_iff.mp hoverrides).1
  have hmerged := wellFormed_mergeEntry hoverrides (some (.table entries)) (by simpa using hes)
  rw [mergeEntry_table, mergeConfig] at hmerged
  constructor
  · exact (wellFormed_table_iff.mp hmerged).1
  · exact fun key => mem_keys_mergeTable
  · intro key below above hbelow habove
    rw [hget, hbelow, habove]
    rfl
  · intro key value hvalue hnot
    rw [hget, hvalue, Option.map_some, Option.some_or]
    rcases mergeEntry_cases (entries.lookup key) value with hself | ⟨_, _, hexisting, rfl, -⟩
    · rw [hself]
    · exact absurd ⟨rfl, rfl⟩ (hnot _ hexisting)
  · intro key hkey
    rw [← lookup_isSome_iff, Option.not_isSome_iff_eq_none] at hkey
    rw [hget, hkey]
    rfl

private theorem mergeConfig_eq (base override : Value F D) :
    mergeConfig base override =
      if base.isTable && override.isTable then mergeEntry (some base) override else base := by
  cases base <;> cases override <;> simp [mergeConfig, mergeEntry, isTable]

/-- At every path where both configurations have tables the result has their merge.  The same
override merged again changes nothing, and neither does a merge with itself. -/
theorem merge_config_law (base override : Value F D) (hbase : base.WellFormed)
    (hovr : override.WellFormed) :
    (∀ path entries overrides, base.get path = some (.table entries) →
      override.get path = some (.table overrides) →
      ∃ merged, (mergeConfig base override).get path = some (.table merged) ∧
        MergesTables entries overrides merged) ∧
    mergeConfig (mergeConfig base override) override = mergeConfig base override ∧
    mergeConfig base base = base := by
  refine ⟨fun path entries overrides hb ho => ?_, ?_, ?_⟩
  · exact ⟨_, get_mergeConfig hovr hb ho,
      mergesTables_mergeTable (hbase.of_get hb) (hovr.of_get ho)⟩
  · rw [mergeConfig_eq base]
    split
    · rw [mergeConfig_eq, mergeEntry_mergeEntry hovr, ite_self]
    · next hnot => rw [mergeConfig_eq, if_neg hnot]
  · rw [mergeConfig_eq, mergeEntry_self hbase, ite_self]

/-- A table `server` over one, and a table `limits` over a number. -/
theorem merge_config_law_server :
    ∃ merged, (mergeConfig
      (.table [("server", .table [("port", .integer 80)]), ("limits", .integer 1)])
      (.table [("limits", .table []), ("server", .table [("host", .string "a")])] :
        Value Unit Unit)).get ["server"] = some (.table merged) ∧
      MergesTables [("port", .integer 80)] [("host", .string "a")] merged :=
  (merge_config_law _ _ (by simp [WellFormed, AllWellFormed, keys])
    (by simp [WellFormed, AllWellFormed, keys])).1 ["server"] _ _ rfl rfl

end ConfigLoader

end Kaelix.Core.Config
