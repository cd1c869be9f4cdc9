import Kaelix.Core.Config.Loader
import Kaelix.Lib.PathTree

/-!
# The order of the environment overrides

`apply_env_vars` applies the collected variables in the order in which a hash map gives them.
-/

namespace Kaelix.Core.Config

open Lib

variable {F D : Type}

namespace Value

/-- A table is an inner node, and everything else is a leaf. -/
def node (v : Value F D) : Node (Value F D) := if v.isTable then .inner else .leaf v

def shape (config : Value F D) : PathTree String (Value F D) :=
  fun path => (config.get path).map node

/-- The same table: every path leads to a table in both, to the same value, or to nothing in
both. -/
def SameTable (config config' : Value F D) : Prop :=
  ∀ path, config.shape path = config'.shape path

variable {v : Value F D}

private theorem node_eq_leaf_iff {w : Value F D} : v.node = .leaf w ↔ v = w ∧ v.isTable = false
    := by
  cases h : v.isTable <;> simp [node, h]

variable {config : Value F D} {path : List String}

theorem shape_eq_leaf_iff :
    config.shape path = some (.leaf v) ↔ config.get path = some v ∧ v.isTable = false := by
  simp only [shape, Option.map_eq_some_iff, node_eq_leaf_iff]
  constructor
  · rintro ⟨w, hw, rfl, htable⟩
    exact ⟨hw, htable⟩
  · rintro ⟨hv, htable⟩
    exact ⟨v, hv, rfl, htable⟩

private theorem blocked_shape_iff : config.shape.Blocked path ↔ config.Blocked path := by
  simp only [PathTree.Blocked, shape_eq_leaf_iff, Blocked]

private theorem shape_above {q : List String} (h : config.get path = some v) (hq : q <+: path)
    (hne : q ≠ path) : config.shape q = some .inner := by
  have hsome : (config.get q).isSome := get_isSome_of_isPrefix hq (by rw [h]; rfl)
  obtain ⟨w, hw⟩ := Option.isSome_iff_exists.mp hsome
  have htable : w.isTable = true := by
    by_contra hleaf
    rw [get_eq_none_of_leaf hw (Bool.not_eq_true _ ▸ hleaf) hq hne.symm] at h
    cases h
  simp [shape, hw, node, htable]

end Value

namespace ConfigLoader

variable {numbers : NumberText F}

private theorem shape_setNestedValue {parts : List String} (hne : parts ≠ []) (value : String)
    (config : Value F D) :
    (setNestedValue numbers parts value config).shape =
      config.shape.set parts (parseEnvValue numbers value) := by
  by_cases hblk : config.Blocked parts
  · rw [setNestedValue_of_blocked hblk,
      PathTree.set_of_blocked (Value.blocked_shape_iff.mpr hblk)]
  have hfree : ¬ config.shape.Blocked parts := mt Value.blocked_shape_iff.mp hblk
  have hset : (setNestedValue numbers parts value config).get parts = _ :=
    get_setNestedValue hne hblk
  have hleaf : (parseEnvValue numbers value : Value F D).isTable = false :=
    parseEnvValue_not_table value
  funext q
  by_cases hq : q = parts
  · rw [hq, PathTree.set_self hfree, Value.shape_eq_leaf_iff]
    exact ⟨hset, hleaf⟩
  by_cases hbelow : parts <+: q
  · rw [PathTree.set_below hfree hq hbelow, Value.shape,
      Value.get_eq_none_of_leaf hset hleaf hbelow hq, Option.map_none]
  by_cases habove : q <+: parts
  · rw [PathTree.set_above hfree hq habove, Value.shape_above hset habove hq]
  · rw [PathTree.set_elsewhere hbelow habove, Value.shape,
      get_setNestedValue_of_ne hbelow habove, Value.shape]

/-- The loop of `apply_env_vars` over the collected variables, in the order in which the map
gives them. -/
def applyInOrder (numbers : NumberText F) (config : Value F D)
    (order : List ((_ : String) × String)) : Value F D :=
  order.foldl (fun config e => applyEnvVar numbers config e.1 e.2) config

def write (numbers : NumberText F) (e : (_ : String) × String) : List String × Value F D :=
  (split '.' e.1, parseEnvValue numbers e.2)

private theorem shape_applyInOrder (config : Value F D) (order : List ((_ : String) × String)) :
    (applyInOrder numbers config order).shape =
      (order.map (write numbers)).foldl (fun t x => t.set x.1 x.2) config.shape := by
  induction order generalizing config with
  | nil => rfl
  | cons e order ih =>
    show (applyInOrder numbers (applyEnvVar numbers config e.1 e.2) order).shape = _
    rw [ih, applyEnvVar, shape_setNestedValue (split_ne_nil '.' e.1)]
    rfl

private theorem write_fst_ne {vars : HashMap String String} {e e' : (_ : String) × String}
    (he : e ∈ vars.entries) (he' : e' ∈ vars.entries)
    (hne : (write numbers e : List String × Value F D) ≠ write numbers e') :
    (write numbers e : List String × Value F D).1 ≠
      (write numbers e' : List String × Value F D).1 := by
  intro hpath
  have hkey : e.1 = e'.1 := by
    rw [← join_split '.' e.1, ← join_split '.' e'.1]
    exact congrArg (join '.') hpath
  exact hne (congrArg (write numbers) (vars.nodupKeys.eq_of_fst_eq he he' hkey))

private theorem sameTable_of_perm (numbers : NumberText F) (config : Value F D)
    (vars : HashMap String String) {order : List ((_ : String) × String)}
    (h : order.Perm vars.entries) :
    (applyInOrder numbers config order).SameTable (applyInOrder numbers config vars.entries) := by
  refine congrFun ?_
  rw [shape_applyInOrder, shape_applyInOrder]
  refine PathTree.foldl_set_of_perm (h.map _) (fun x hx y hy hne => ?_) _
  obtain ⟨e, he, rfl⟩ := List.mem_map.mp hx
  obtain ⟨e', he', rfl⟩ := List.mem_map.mp hy
  exact write_fst_ne (h.mem_iff.mp he) (h.mem_iff.mp he') hne

/-- Whatever order the map of the collected variables is iterated in, the table is the same.
This is so for every map, however the names are lower-cased. -/
theorem apply_env_vars_order (numbers : NumberText F) (config : Value F D)
    (vars : HashMap String String) (order order' : List ((_ : String) × String))
    (h : order.Perm vars.entries) (h' : order'.Perm vars.entries) :
    (applyInOrder numbers config order).SameTable (applyInOrder numbers config order') ∧
    ∀ (self : ConfigLoader) env, self.collectEnvVars env = vars →
      (applyInOrder numbers config order).SameTable (self.applyEnvVars numbers env config) := by
  have hsame := sameTable_of_perm numbers config vars h
  constructor
  · exact fun path => (hsame path).trans (sameTable_of_perm numbers config vars h' path).symm
  · rintro self env rfl
    exact hsame

/-- Two variables where one path goes through the other, in both orders. -/
theorem apply_env_vars_order_nested :
    (applyInOrder ⟨fun _ => none, fun _ => none⟩ (.table []) [⟨"a", "1"⟩, ⟨"a.b", "2"⟩] :
      Value Unit Unit).SameTable
    (applyInOrder ⟨fun _ => none, fun _ => none⟩ (.table []) [⟨"a.b", "2"⟩, ⟨"a", "1"⟩]) :=
  (apply_env_vars_order _ _ (AList.insert "a.b" "2" (AList.insert "a" "1" ∅)) _ _
    (by decide) (by decide)).1

end ConfigLoader

end Kaelix.Core.Config
