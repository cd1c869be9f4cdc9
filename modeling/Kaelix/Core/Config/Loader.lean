import Kaelix.Lib.HashMap
import Kaelix.Lib.Text

/-!
# Environment overrides of the configuration

`ConfigLoader` of `config/loader.rs`, from the environment to the TOML table.  A variable
`PREFIX_SERVER_PORT` is stripped, lower-cased, its underscores become dots, and the text is split
at the dots: it sets `port` in the table `server`.

An underscore that belongs to a key is taken for a separator as well.
-/

namespace Kaelix.Core.Config

open Lib

/-- `toml::Value`.  Floats and dates are opaque; the first entry of a table counts for its
key. -/
inductive Value (F D : Type) where
  | string (s : String)
  | integer (i : Int)
  | float (f : F)
  | boolean (b : Bool)
  | datetime (d : D)
  | array (items : List (Value F D))
  | table (entries : List (String × Value F D))

/-- How texts are read as numbers. -/
structure NumberText (F : Type) where
  parseI64 : String → Option Int
  parseF64 : String → Option F

structure ConfigLoader where
  envPrefix : String

def insertKey {V : Type} (key : String) (v : V) : List (String × V) → List (String × V)
  | [] => [(key, v)]
  | entry :: entries =>
    if entry.1 = key then (key, v) :: entries else entry :: insertKey key v entries

namespace ConfigLoader

variable {F D : Type}

variable (numbers : NumberText F)

/-- The first type that the text fits. -/
def parseEnvValue (value : String) : Value F D :=
  if value = "true" then .boolean true
  else if value = "false" then .boolean false
  else
    match numbers.parseI64 value with
    | some intVal => .integer intVal
    | none =>
      match numbers.parseF64 value with
      | some floatVal => .float floatVal
      | none => .string value

/-- `set_nested_value`.  A missing table is made on the way; what is not a table is left
alone. -/
def setNestedValue (numbers : NumberText F) : List String → String → Value F D → Value F D
  | [], _, config => config
  | [key], value, .table entries =>
    .table (insertKey key (parseEnvValue numbers value) entries)
  | currentKey :: next :: remaining, value, .table entries =>
    let entry := (entries.lookup currentKey).getD (.table [])
    .table (insertKey currentKey (setNestedValue numbers (next :: remaining) value entry) entries)
  | _ :: _, _, config => config

def applyEnvVar (config : Value F D) (key value : String) : Value F D :=
  setNestedValue numbers (split '.' key) value config

def toLowercase (s : String) : String := mapChars Char.toLower s

def toUppercase (s : String) : String := mapChars Char.toUpper s

variable (self : ConfigLoader)

def hasEnvPrefix (name : String) : Bool :=
  (stripPrefix (self.envPrefix ++ "_") name).isSome

def configKey (name : String) : Option String :=
  (stripPrefix (self.envPrefix ++ "_") name).map fun rest =>
    replaceChar '_' '.' (toLowercase rest)

def collectEnvVars (env : List (String × String)) : HashMap String String :=
  (env.filterMap fun e => (self.configKey e.1).map fun key => (key, e.2)).foldl
    (fun envVars e => envVars.insert e.1 e.2) ∅

def applyEnvVars (self : ConfigLoader) (numbers : NumberText F) (env : List (String × String))
    (config : Value F D) : Value F D :=
  (self.collectEnvVars env).entries.foldl
    (fun config e => applyEnvVar numbers config e.1 e.2) config

/-- The variable for a path: the prefix and the keys in upper case, with underscores in
between. -/
def envName (path : List String) : String :=
  self.envPrefix ++ "_" ++ join '_' (path.map toUppercase)

/-- The path that the loader reads from it: the keys cut at all underscores. -/
def envPath (path : List String) : List String := split '_' (join '_' path)

end ConfigLoader

/-! ## Paths in a configuration -/

namespace Value

variable {F D : Type}

def isTable : Value F D → Bool
  | .table _ => true
  | _ => false

/-- What a path leads to. -/
def get : Value F D → List String → Option (Value F D)
  | config, [] => some config
  | .table entries, key :: path => (entries.lookup key).bind fun v => v.get path
  | _, _ :: _ => none

/-- The leaf at the path has changed to `v`; all other paths lead to what they led to, and
the same paths exist. -/
structure OnlyLeafChanged (config config' : Value F D) (path : List String)
    (v : Value F D) : Prop where
  leaf : config'.get path = some v
  frame : ∀ q, ¬ q <+: path → config'.get q = config.get q
  keys : ∀ q, (config'.get q).isSome = (config.get q).isSome

/-- On the way to the path there is something that is not a table. -/
def Blocked (config : Value F D) (path : List String) : Prop :=
  ∃ q w, q <+: path ∧ q ≠ path ∧ config.get q = some w ∧ w.isTable = false

end Value

def isNameChar (c : Char) : Bool := c.isLower || c.isDigit || c == '_' || c == '-'

/-- Letters in lower case, digits, `_` and `-`. -/
def LowerName (key : String) : Prop := ∀ c ∈ key.toList, isNameChar c = true

instance (key : String) : Decidable (LowerName key) :=
  List.decidableBAll (fun c => isNameChar c = true) key.toList

/-! ## Tables -/

variable {key : String}

section

variable {V : Type}

private theorem lookup_cons_ne {k : String} (h : key ≠ k) (w : V) (entries : List (String × V)) :
    ((k, w) :: entries).lookup key = entries.lookup key := by
  rw [List.lookup_cons, beq_false_of_ne h]

theorem lookup_insertKey (key key' : String) (v : V) (entries : List (String × V)) :
    (insertKey key v entries).lookup key' =
      if key' = key then some v else entries.lookup key' := by
  induction entries with
  | nil =>
    by_cases h : key' = key
    · rw [insertKey, h, List.lookup_cons_self, if_pos rfl]
    · rw [insertKey, lookup_cons_ne h, if_neg h]
  | cons entry entries ih =>
    obtain ⟨k, w⟩ := entry
    by_cases hk : k = key
    · rw [insertKey, if_pos hk, hk]
      by_cases h : key' = key
      · rw [h, List.lookup_cons_self, if_pos rfl]
      · rw [lookup_cons_ne h, if_neg h, lookup_cons_ne h]
    · rw [insertKey, if_neg hk]
      by_cases h : key' = k
      · rw [h, List.lookup_cons_self, List.lookup_cons_self, if_neg hk]
      · rw [lookup_cons_ne h, lookup_cons_ne h, ih]

theorem insertKey_of_lookup {v : V} {entries : List (String × V)}
    (h : entries.lookup key = some v) : insertKey key v entries = entries := by
  induction entries with
  | nil => cases h
  | cons entry entries ih =>
    obtain ⟨k, w⟩ := entry
    by_cases hk : k = key
    · rw [hk, List.lookup_cons_self] at h
      rw [insertKey, if_pos hk, ← Option.some.inj h, ← hk]
    · rw [lookup_cons_ne (Ne.symm hk)] at h
      rw [insertKey, if_neg hk, ih h]

end

variable {q : List String}

namespace Value

variable {F D : Type}

theorem get_append (config : Value F D) (p q : List String) :
    config.get (p ++ q) = (config.get p).bind fun v => v.get q := by
  induction p generalizing config with
  | nil => rfl
  | cons key p ih =>
    cases config with
    | table entries =>
      rw [List.cons_append, get, get]
      cases entries.lookup key with
      | none => rfl
      | some v => exact ih v
    | _ => rfl

theorem not_blocked_nil (config : Value F D) : ¬ config.Blocked [] := by
  rintro ⟨q, -, hq, hne, -⟩
  exact hne (List.prefix_nil.mp hq)

variable {path : List String}

theorem blocked_of_not_table {config : Value F D} (h : config.isTable = false) (hne : path ≠ []) :
    config.Blocked path :=
  ⟨[], config, List.nil_prefix, hne.symm, rfl, h⟩

theorem blocked_table_cons_iff {entries : List (String × Value F D)} :
    (table entries).Blocked (key :: path) ↔
      ∃ v, entries.lookup key = some v ∧ v.Blocked path := by
  constructor
  · rintro ⟨q, w, hq, hne, hw, htable⟩
    cases q with
    | nil =>
      cases hw
      cases htable
    | cons k q =>
      obtain ⟨rfl, hrest⟩ := List.cons_prefix_cons.mp hq
      rw [get] at hw
      obtain ⟨v, hv, hw⟩ := Option.bind_eq_some_iff.mp hw
      exact ⟨v, hv, q, w, hrest, fun h => hne (congrArg (k :: ·) h), hw, htable⟩
  · rintro ⟨v, hv, q, w, hq, hne, hw, htable⟩
    refine ⟨key :: q, w, List.cons_prefix_cons.mpr ⟨rfl, hq⟩, ?_, ?_, htable⟩
    · exact fun h => hne (List.cons.inj h).2
    · rw [get, hv, Option.bind_some, hw]

theorem not_blocked_of_get {config leaf : Value F D} (h : config.get path = some leaf) :
    ¬ config.Blocked path := by
  rintro ⟨q, w, ⟨rest, rfl⟩, hne, hw, htable⟩
  rw [get_append, hw, Option.bind_some] at h
  cases rest with
  | nil => exact hne (List.append_nil q).symm
  | cons => cases w <;> first | cases h | cases htable

theorem get_eq_none_of_leaf {config leaf : Value F D} (h : config.get path = some leaf)
    (hleaf : leaf.isTable = false) (hq : path <+: q) (hne : q ≠ path) : config.get q = none := by
  obtain ⟨rest, rfl⟩ := hq
  rw [get_append, h, Option.bind_some]
  cases rest with
  | nil => exact absurd (List.append_nil path) hne
  | cons => cases leaf <;> first | rfl | cases hleaf

theorem get_isSome_of_isPrefix {config : Value F D} (hq : q <+: path)
    (h : (config.get path).isSome) : (config.get q).isSome := by
  obtain ⟨rest, rfl⟩ := hq
  rw [get_append] at h
  cases hget : config.get q with
  | none => rw [hget] at h; cases h
  | some => rfl

end Value

/-! ## Setting a nested value -/

namespace ConfigLoader

variable {F D : Type} {numbers : NumberText F}

variable {value : String} {config : Value F D} {parts : List String}

theorem setNestedValue_of_not_table (h : config.isTable = false) :
    setNestedValue numbers parts value config = config := by
  cases config with
  | table => cases h
  | _ =>
    rcases parts with _ | ⟨key, _ | ⟨next, rest⟩⟩ <;> rfl

private theorem exists_setNestedValue_table (numbers : NumberText F) (key : String)
    (rest : List String) (value : String) (entries : List (String × Value F D)) :
    ∃ v, setNestedValue numbers (key :: rest) value (.table entries) =
      .table (insertKey key v entries) := by
  cases rest with
  | _ => exact ⟨_, rfl⟩

theorem parseEnvValue_not_table (value : String) :
    (parseEnvValue numbers value : Value F D).isTable = false := by
  unfold parseEnvValue
  repeat' split
  all_goals rfl

theorem get_setNestedValue (hne : parts ≠ []) (hfree : ¬ config.Blocked parts) :
    (setNestedValue numbers parts value config).get parts =
      some (parseEnvValue numbers value) := by
  induction parts generalizing config with
  | nil => exact absurd rfl hne
  | cons key rest ih =>
    cases config with
    | table entries =>
      cases rest with
      | nil => simp [setNestedValue, Value.get, lookup_insertKey]
      | cons =>
        rw [setNestedValue, Value.get, lookup_insertKey, if_pos rfl, Option.bind_some]
        refine ih (List.cons_ne_nil _ _) fun hblk => ?_
        cases hlook : entries.lookup key with
        | none =>
          rw [hlook, Option.getD_none, Value.blocked_table_cons_iff] at hblk
          obtain ⟨v, hv, -⟩ := hblk
          cases hv
        | some v =>
          rw [hlook, Option.getD_some] at hblk
          exact hfree (Value.blocked_table_cons_iff.mpr ⟨v, hlook, hblk⟩)
    | _ => exact absurd (Value.blocked_of_not_table rfl hne) hfree

theorem setNestedValue_of_blocked (h : config.Blocked parts) :
    setNestedValue numbers parts value config = config := by
  induction parts generalizing config with
  | nil => rfl
  | cons key rest ih =>
    cases config with
    | table =>
      obtain ⟨v, hv, hblk⟩ := Value.blocked_table_cons_iff.mp h
      cases rest with
      | nil => exact absurd hblk (Value.not_blocked_nil v)
      | cons =>
        rw [setNestedValue, hv, Option.getD_some, ih hblk, insertKey_of_lookup hv]
    | _ => exact setNestedValue_of_not_table rfl

theorem setNestedValue_of_get (h : config.get parts = some (parseEnvValue numbers value)) :
    setNestedValue numbers parts value config = config := by
  induction parts generalizing config with
  | nil => rfl
  | cons key rest ih =>
    cases config with
    | table =>
      rw [Value.get] at h
      obtain ⟨v, hv, hrest⟩ := Option.bind_eq_some_iff.mp h
      cases rest with
      | nil =>
        cases hrest
        rw [setNestedValue, insertKey_of_lookup hv]
      | cons =>
        rw [setNestedValue, hv, Option.getD_some, ih hrest, insertKey_of_lookup hv]
    | _ => exact setNestedValue_of_not_table rfl

theorem get_setNestedValue_of_ne {parts : List String} (hpq : ¬ parts <+: q)
    (hqp : ¬ q <+: parts) :
    (setNestedValue numbers parts value config).get q = config.get q := by
  induction parts generalizing config q with
  | nil => exact absurd List.nil_prefix hpq
  | cons key rest ih =>
    cases q with
    | nil => exact absurd List.nil_prefix hqp
    | cons k q =>
      cases config with
      | table entries =>
        by_cases hk : k = key
        · subst hk
          have hpq : ¬ rest <+: q := fun h => hpq (List.cons_prefix_cons.mpr ⟨rfl, h⟩)
          have hqp : ¬ q <+: rest := fun h => hqp (List.cons_prefix_cons.mpr ⟨rfl, h⟩)
          cases rest with
          | nil => exact absurd List.nil_prefix hpq
          | cons =>
            rw [setNestedValue, Value.get, lookup_insertKey, if_pos rfl,
              Option.bind_some, ih hpq hqp, Value.get]
            cases entries.lookup k with
            | some => rfl
            | none =>
              cases q with
              | nil => exact absurd List.nil_prefix hqp
              | cons => rfl
        · obtain ⟨v, hset⟩ := exists_setNestedValue_table numbers key rest value entries
          rw [hset, Value.get, lookup_insertKey, if_neg hk, Value.get]
      | _ => rw [setNestedValue_of_not_table rfl]

/-! ## From the variable to the path -/

private theorem toLower_toUpper_of_lt : ∀ n < 128, isNameChar (Char.ofNat n) = true →
    (Char.ofNat n).toUpper.toLower = Char.ofNat n ∧ Char.ofNat n ≠ '.' := by
  decide

theorem toLower_toUpper {c : Char} (h : isNameChar c = true) :
    c.toUpper.toLower = c ∧ c ≠ '.' := by
  have hlt : c.toNat < 128 := by
    change c.val.toNat < 128
    simp only [isNameChar, Bool.or_eq_true, beq_iff_eq] at h
    rcases h with ((h | h) | rfl) | rfl
    · have hle : c.val ≤ 'z'.val := of_decide_eq_true (Bool.and_eq_true_iff.mp h).2
      exact Nat.lt_of_le_of_lt (UInt32.le_iff_toNat_le.mp hle) (by decide)
    · have hle : c.val ≤ '9'.val := of_decide_eq_true (Bool.and_eq_true_iff.mp h).2
      exact Nat.lt_of_le_of_lt (UInt32.le_iff_toNat_le.mp hle) (by decide)
    · decide
    · decide
  rw [← Char.ofNat_toNat c] at h ⊢
  exact toLower_toUpper_of_lt c.toNat hlt h

private theorem toLowercase_toUppercase (h : LowerName key) :
    toLowercase (toUppercase key) = key := by
  rw [toLowercase, toUppercase, mapChars, mapChars, String.toList_ofList, List.map_map]
  have hid : key.toList.map (Char.toLower ∘ Char.toUpper) = key.toList.map id :=
    List.map_congr_left fun c hc => (toLower_toUpper (h c hc)).1
  rw [hid, List.map_id, String.ofList_toList]

variable {path : List String}

private theorem toLowercase_join (h : ∀ key ∈ path, LowerName key) :
    toLowercase (join '_' (path.map toUppercase)) = join '_' path := by
  have hid : (path.map toUppercase).map (mapChars Char.toLower) = path.map id := by
    rw [List.map_map]
    exact List.map_congr_left fun key hkey => toLowercase_toUppercase (h key hkey)
  rw [toLowercase, mapChars_join, hid, List.map_id]
  rfl

private theorem configKey_envName (self : ConfigLoader) (h : ∀ key ∈ path, LowerName key) :
    ∃ key, self.configKey (self.envName path) = some key ∧ split '.' key = envPath path := by
  refine ⟨replaceChar '_' '.' (join '_' path), ?_, ?_⟩
  · rw [configKey, envName, stripPrefix_append, Option.map_some, toLowercase_join h]
  · apply split_replaceChar
    intro hdot
    rcases mem_join hdot with hc | ⟨key, hkey, hc⟩
    · exact absurd hc (by decide)
    · exact (toLower_toUpper (h key hkey _ hc)).2 rfl

private theorem applyEnvVars_of_only {self : ConfigLoader} {env : List (String × String)}
    (hnames : ∀ key ∈ path, LowerName key)
    (honly : (env.filter fun e => self.hasEnvPrefix e.1) = [(self.envName path, value)])
    (config : Value F D) :
    self.applyEnvVars numbers env config =
      setNestedValue numbers (envPath path) value config := by
  obtain ⟨key, hkey, hsplit⟩ := self.configKey_envName hnames
  have hvars : (env.filterMap fun e => (self.configKey e.1).map fun key => (key, e.2)) =
      [(key, value)] := by
    have hfil : (env.filterMap fun e => (self.configKey e.1).map fun key => (key, e.2)) =
        (env.filter fun e => self.hasEnvPrefix e.1).filterMap
          fun e => (self.configKey e.1).map fun key => (key, e.2) := by
      rw [List.filterMap_filter]
      apply List.filterMap_congr
      intro e _
      rw [hasEnvPrefix, configKey]
      cases stripPrefix (self.envPrefix ++ "_") e.1 <;> rfl
    rw [hfil, honly, List.filterMap_cons, hkey]
    rfl
  rw [applyEnvVars, collectEnvVars, hvars, ← hsplit]
  rfl

/-! ## Keys with underscores -/

private theorem envPath_of_free (hne : path ≠ [])
    (h : ∀ key ∈ path, '_' ∉ key.toList) : envPath path = path :=
  split_join hne h

private theorem envPath_elsewhere (hne : path ≠ []) (h : ¬ ∀ key ∈ path, '_' ∉ key.toList) :
    ¬ envPath path <+: path ∧ ¬ path <+: envPath path := by
  have hjoin : join '_' (envPath path) = join '_' path := join_split '_' _
  have hdiff : envPath path ≠ path := fun heq =>
    h fun key hkey => notMem_of_mem_split (heq.symm ▸ hkey : key ∈ envPath path)
  constructor
  · intro hpre
    exact hdiff (eq_of_prefix_of_join_eq (split_ne_nil _ _) hpre hjoin)
  · intro hpre
    exact hdiff (eq_of_prefix_of_join_eq hne hpre hjoin.symm).symm

/-! ## The override -/

private theorem onlyLeafChanged_setNestedValue {config leaf : Value F D} (hne : path ≠ [])
    (hleaf : config.get path = some leaf) (hnot : leaf.isTable = false) :
    config.OnlyLeafChanged (setNestedValue numbers path value config) path
      (parseEnvValue numbers value) := by
  have hset : (setNestedValue numbers path value config).get path =
      some (parseEnvValue numbers value) :=
    get_setNestedValue hne (Value.not_blocked_of_get hleaf)
  have hframe : ∀ q, ¬ q <+: path →
      (setNestedValue numbers path value config).get q = config.get q := by
    intro q hq
    by_cases hbelow : path <+: q
    · -- below the leaf there was nothing, and there is nothing now
      have hqne : q ≠ path := fun heq => hq (heq ▸ List.prefix_refl _)
      rw [Value.get_eq_none_of_leaf hset (parseEnvValue_not_table value) hbelow hqne,
        Value.get_eq_none_of_leaf hleaf hnot hbelow hqne]
    · exact get_setNestedValue_of_ne hbelow hq
  refine ⟨hset, hframe, fun q => ?_⟩
  by_cases hq : q <+: path
  · rw [Value.get_isSome_of_isPrefix hq (hset ▸ rfl),
      Value.get_isSome_of_isPrefix hq (hleaf ▸ rfl)]
  · rw [hframe q hq]

/-- The variable that names an existing leaf of lower-case keys changes exactly that leaf
to its value iff no key has an underscore; or the leaf has that value, and the write to the
path cut at all underscores meets something in the way or that value. -/
theorem env_override_iff (self : ConfigLoader) (numbers : NumberText F)
    {env : List (String × String)} {config leaf : Value F D} {path : List String}
    {value : String} (hne : path ≠ []) (hnames : ∀ key ∈ path, LowerName key)
    (hleaf : config.get path = some leaf) (hnot : leaf.isTable = false)
    (honly : (env.filter fun e => self.hasEnvPrefix e.1) = [(self.envName path, value)]) :
    config.OnlyLeafChanged (self.applyEnvVars numbers env config) path
        (parseEnvValue numbers value) ↔
      (∀ key ∈ path, '_' ∉ key.toList) ∨
        (leaf = parseEnvValue numbers value ∧
          (config.Blocked (envPath path) ∨
            config.get (envPath path) = some (parseEnvValue numbers value))) := by
  rw [applyEnvVars_of_only hnames honly]
  by_cases hfree : ∀ key ∈ path, '_' ∉ key.toList
  · rw [envPath_of_free hne hfree]
    exact iff_of_true (onlyLeafChanged_setNestedValue hne hleaf hnot) (.inl hfree)
  · obtain ⟨hpre, hpre'⟩ := envPath_elsewhere hne hfree
    constructor
    · intro hchanged
      have hkept : (setNestedValue numbers (envPath path) value config).get path = some leaf :=
        (get_setNestedValue_of_ne hpre hpre').trans hleaf
      refine .inr ⟨Option.some.inj (hkept.symm.trans hchanged.leaf), ?_⟩
      by_cases hblk : config.Blocked (envPath path)
      · exact .inl hblk
      · refine .inr ?_
        rw [← hchanged.frame (envPath path) hpre]
        exact get_setNestedValue (split_ne_nil _ _) hblk
    · rintro (h | ⟨rfl, hinert⟩)
      · exact absurd h hfree
      · have hsame : setNestedValue numbers (envPath path) value config = config := by
          rcases hinert with hblk | hget
          · exact setNestedValue_of_blocked hblk
          · exact setNestedValue_of_get hget
        rw [hsame]
        exact ⟨hleaf, fun _ _ => rfl, fun _ => rfl⟩

def kaelixLoader : ConfigLoader := ⟨"KAELIX"⟩

def fewNumbers : NumberText Unit :=
  { parseI64 := fun s => if s = "9090" then some 9090 else if s = "50" then some 50 else none
    parseF64 := fun _ => none }

def networkConfig : Value Unit Unit :=
  .table [("network", .table [("max_connections", .integer 1000), ("port", .integer 8080)])]

/-- `KAELIX_NETWORK_PORT` reaches its setting. -/
theorem env_override_port :
    networkConfig.OnlyLeafChanged
      (kaelixLoader.applyEnvVars fewNumbers [("HOME", "/"), ("KAELIX_NETWORK_PORT", "9090")]
        networkConfig) ["network", "port"] (.integer 9090) := by
  have honly : ([("HOME", "/"), ("KAELIX_NETWORK_PORT", "9090")].filter
      fun e => kaelixLoader.hasEnvPrefix e.1) =
        [(kaelixLoader.envName ["network", "port"], "9090")] := rfl
  exact (env_override_iff kaelixLoader fewNumbers (List.cons_ne_nil _ _) (by decide) rfl rfl
    honly).mpr (.inl (by decide))

/-- `KAELIX_NETWORK_MAX_CONNECTIONS` does not: it makes a table of tables instead. -/
theorem env_override_max_connections :
    (kaelixLoader.applyEnvVars fewNumbers [("KAELIX_NETWORK_MAX_CONNECTIONS", "50")]
        networkConfig).get ["network", "max_connections"] = some (.integer 1000) ∧
      (kaelixLoader.applyEnvVars fewNumbers [("KAELIX_NETWORK_MAX_CONNECTIONS", "50")]
        networkConfig).get ["network", "max", "connections"] = some (.integer 50) ∧
      ¬ networkConfig.OnlyLeafChanged
        (kaelixLoader.applyEnvVars fewNumbers [("KAELIX_NETWORK_MAX_CONNECTIONS", "50")]
          networkConfig) ["network", "max_connections"] (.integer 50) := by
  have hkept : (kaelixLoader.applyEnvVars fewNumbers
      [("KAELIX_NETWORK_MAX_CONNECTIONS", "50")] networkConfig).get
        ["network", "max_connections"] = some (.integer 1000) := by rfl
  refine ⟨hkept, by rfl, fun h => ?_⟩
  have hleaf := h.leaf
  rw [hkept] at hleaf
  cases hleaf

end ConfigLoader

end Kaelix.Core.Config
