import Kaelix.Core.Plugin.Security

/-!
# What security rules act on

A rule should act on the fields that its conditions name, and not at all on operations without
such fields.  `extract_field_value` has the empty text for a field that is not there, and the
operators take it for a value: an allow rule about paths blocks all network access.
-/

namespace Kaelix.Core.Plugin

open Lib

namespace SecurityOperation

/-- The operation's own value of a field as a text, if it has the field. -/
def ownValue (operation : SecurityOperation) (field : String) : Option String :=
  match operation with
  | .networkAccess host port =>
    if field = "host" then some host
    else if field = "port" then some (toString port.toNat)
    else none
  | .fileSystemRead path => if field = "path" then some path else none
  | .fileSystemWrite path => if field = "path" then some path else none
  | .memoryAllocation size => if field = "size" then some (toString size) else none
  | .systemCall call => if field = "call" then some call else none
  | .ipcMessage target size =>
    if field = "target" then some target
    else if field = "size" then some (toString size)
    else none

/-- The operation sends a message. -/
def isMessage : SecurityOperation → Bool
  | .ipcMessage .. => true
  | _ => false

end SecurityOperation

/-- No condition of the rule names a field of the operation. -/
def SecurityRule.Unrelated (rule : SecurityRule) (operation : SecurityOperation) : Prop :=
  ∀ c ∈ rule.conditions, operation.ownValue c.field = none

variable {F : Type} (floats : Floats F)

/-- The condition holds of an empty field. -/
def SecurityCondition.HoldsOfEmpty (c : SecurityCondition) : Prop :=
  match c.operator with
  | .equals | .contains | .startsWith | .endsWith => c.value = ""
  | .notEquals => c.value ≠ ""
  | .greaterThan => floats.lt (floats.number c.value) floats.zero
  | .lessThan => floats.lt floats.zero (floats.number c.value)

/-- The rule lets pass what has none of its fields. -/
def SecurityRule.PassesEmpty (rule : SecurityRule) : Prop :=
  match rule.ruleType with
  | .allow => ∃ c ∈ rule.conditions, c.HoldsOfEmpty floats
  | .deny => ∀ c ∈ rule.conditions, ¬ c.HoldsOfEmpty floats

/-! ## Fields -/

theorem SecurityCondition.extractFieldValue_eq (c : SecurityCondition)
    (operation : SecurityOperation) :
    c.extractFieldValue operation =
      if operation.isMessage ∧ c.field = "size" then ""
      else (operation.ownValue c.field).getD "" := by
  unfold SecurityCondition.extractFieldValue
  cases operation <;> split <;> simp_all [SecurityOperation.isMessage, SecurityOperation.ownValue]

private theorem toString_ne_empty (n : Nat) : toString n ≠ "" := by
  intro h
  have hlist := congrArg String.toList h
  rw [Nat.toString_eq_repr, Nat.toList_repr] at hlist
  exact Nat.toDigits_ne_nil hlist

variable {operation : SecurityOperation} {c : SecurityCondition}

theorem SecurityCondition.extract_of_none (h : operation.ownValue c.field = none) :
    c.extractFieldValue operation = "" := by
  rw [c.extractFieldValue_eq, h, Option.getD_none, ite_self]

theorem SecurityOperation.ownValue_size
    (h : operation.isMessage) : ∃ v, operation.ownValue "size" = some v := by
  cases operation with
  | ipcMessage target size => exact ⟨toString size, rfl⟩
  | _ => cases h

theorem SecurityCondition.extract_iff_of_some {v : String}
    (h : operation.ownValue c.field = some v) :
    c.extractFieldValue operation = v ↔ (operation.isMessage → c.field ≠ "size") := by
  rw [c.extractFieldValue_eq, h, Option.getD_some]
  by_cases hsize : operation.isMessage ∧ c.field = "size"
  · -- the size is there as a text that is not empty
    rw [if_pos hsize]
    refine iff_of_false (fun hemp => ?_) fun hnot => hnot hsize.1 hsize.2
    cases operation with
    | ipcMessage target size =>
      rw [hsize.2] at h
      simp only [SecurityOperation.ownValue, if_neg (show "size" ≠ "target" by decide), if_true,
        Option.some.injEq] at h
      exact toString_ne_empty size (h.trans hemp.symm)
    | _ => cases hsize.1
  · rw [if_neg hsize]
    exact iff_of_true rfl fun hmsg hfield => hsize ⟨hmsg, hfield⟩

/-! ## Rules -/

theorem SecurityCondition.matches_empty_iff (c : SecurityCondition) :
    c.operator.matches floats "" c.value ↔ c.HoldsOfEmpty floats := by
  have hzero : floats.number "" = floats.zero := by
    rw [Floats.number, floats.parse_empty, Option.getD_none]
  unfold ConditionOperator.matches SecurityCondition.HoldsOfEmpty
  cases c.operator <;> simp [hzero, eq_comm (a := "")]

theorem SecurityRule.allowsOperation_of_unrelated {rule : SecurityRule}
    (h : rule.Unrelated operation) :
    rule.allowsOperation floats operation ↔ rule.PassesEmpty floats := by
  have hmatches : ∀ c ∈ rule.conditions,
      (c.matchesOperation floats operation ↔ c.HoldsOfEmpty floats) := by
    intro c hc
    rw [SecurityCondition.matchesOperation, SecurityCondition.extract_of_none (h c hc),
      c.matches_empty_iff floats]
  unfold SecurityRule.allowsOperation SecurityRule.PassesEmpty
  cases rule.ruleType with
  | allow =>
    simp only [List.any_eq_true]
    exact exists_congr fun c => and_congr_right (hmatches c)
  | deny =>
    simp only [Bool.not_eq_true', List.any_eq_false]
    exact forall₂_congr fun c hc => not_congr (hmatches c hc)

/-! ## Whole policies -/

section

variable (debug : SecurityOperation → String) (id : BitVec 128) (policy : SecurityPolicy)
  (capabilities : CapabilitySet) (operation : SecurityOperation) (now : Nat)

theorem SecurityContext.checkOperation_isOk_iff (self : SecurityContext) :
    (self.checkOperation floats debug operation now).1.isOk ↔
      self.allowsOperation operation ∧
        ∀ rule ∈ self.policy.customRules, rule.allowsOperation floats operation := by
  rw [SecurityContext.checkOperation]
  by_cases hcap : self.allowsOperation operation
  · rw [if_neg (by simp [hcap])]
    cases hfind : self.policy.customRules.find? (!·.allowsOperation floats operation) with
    | some rule =>
      have hblk := List.find?_some hfind
      have hmem := List.mem_of_find?_eq_some hfind
      refine iff_of_false (by simp [Except.isOk, Except.toBool]) fun h => ?_
      simp [h.2 rule hmem] at hblk
    | none =>
      refine iff_of_true rfl ⟨hcap, fun rule hrule => ?_⟩
      simpa using List.find?_eq_none.mp hfind rule hrule
  · rw [if_pos (by simpa using hcap)]
    simp [hcap, Except.isOk, Except.toBool]

/-- A context of the policy with these rules allows the operation. -/
def AllowsWith (rules : List SecurityRule) : Prop :=
  ((SecurityContext.withPolicy id { policy with customRules := rules } capabilities).checkOperation
    floats debug operation now).1.isOk

/-- Conditions are evaluated on the operation's own values, and the operation is not affected
by a rule that is unrelated to it. -/
structure ActsOnNamedFields (before : List SecurityRule) (rule : SecurityRule)
    (after : List SecurityRule) : Prop where
  evaluated : ∀ r ∈ before ++ rule :: after, ∀ c ∈ r.conditions, ∀ v,
    operation.ownValue c.field = some v → c.extractFieldValue operation = v
  unaffected : rule.Unrelated operation →
    (AllowsWith floats debug id policy capabilities operation now (before ++ rule :: after) ↔
      AllowsWith floats debug id policy capabilities operation now (before ++ after))

private theorem allowsWith_iff (rules : List SecurityRule) :
    AllowsWith floats debug id policy capabilities operation now rules ↔
      (SecurityContext.withPolicy id policy capabilities).allowsOperation operation ∧
        ∀ rule ∈ rules, rule.allowsOperation floats operation := by
  rw [AllowsWith, SecurityContext.checkOperation_isOk_iff]
  rfl

private theorem allowsWith_insert_iff (before : List SecurityRule) (rule : SecurityRule)
    (after : List SecurityRule) :
    AllowsWith floats debug id policy capabilities operation now (before ++ rule :: after) ↔
      rule.allowsOperation floats operation ∧
        AllowsWith floats debug id policy capabilities operation now (before ++ after) := by
  simp only [allowsWith_iff, List.mem_append, List.mem_cons]
  constructor
  · rintro ⟨hcap, hrules⟩
    exact ⟨hrules rule (.inr (.inl rfl)), hcap, fun r hr => hrules r (hr.imp_right .inr)⟩
  · rintro ⟨hrule, hcap, hrules⟩
    refine ⟨hcap, fun r hr => ?_⟩
    rcases hr with hr | rfl | hr
    · exact hrules r (.inl hr)
    · exact hrule
    · exact hrules r (.inr hr)

/-- With and without a rule at any place of a policy: rules act on the fields they name iff
for a message none of them names the size, and an unrelated rule is one that lets pass what
has none of its fields, or comes too late as the capability or another rule is against the
operation. -/
theorem named_fields_iff (before : List SecurityRule) (rule : SecurityRule)
    (after : List SecurityRule) :
    ActsOnNamedFields floats debug id policy capabilities operation now before rule after ↔
      (operation.isMessage → ∀ r ∈ before ++ rule :: after, ∀ c ∈ r.conditions,
        c.field ≠ "size") ∧
      (rule.Unrelated operation → rule.PassesEmpty floats ∨
        ¬ ((SecurityContext.withPolicy id policy capabilities).allowsOperation operation ∧
          ∀ r ∈ before ++ after, r.allowsOperation floats operation)) := by
  rw [← allowsWith_iff floats debug id policy capabilities operation now]
  constructor
  · intro h
    refine ⟨fun hmsg r hr c hc hsize => ?_, fun hunrel => ?_⟩
    · obtain ⟨v, hv⟩ := SecurityOperation.ownValue_size hmsg
      rw [← hsize] at hv
      exact (c.extract_iff_of_some hv).1 (h.evaluated r hr c hc v hv) hmsg hsize
    · by_cases hall :
          AllowsWith floats debug id policy capabilities operation now (before ++ after)
      · have hrule := (h.unaffected hunrel).mpr hall
        rw [allowsWith_insert_iff, rule.allowsOperation_of_unrelated floats hunrel] at hrule
        exact .inl hrule.1
      · exact .inr hall
  · rintro ⟨hsize, hunrel⟩
    refine ⟨fun r hr c hc v hv => ?_, fun h => ?_⟩
    · exact (c.extract_iff_of_some hv).2 fun hmsg => hsize hmsg r hr c hc
    · rw [allowsWith_insert_iff, rule.allowsOperation_of_unrelated floats h]
      exact and_iff_right_of_imp fun hall =>
        (hunrel h).resolve_right (not_not_intro hall)

end

/-- Paths under `/tmp/` only. -/
def tmpOnly : SecurityRule :=
  { name := "tmp_only"
    ruleType := .allow
    conditions := [{ field := "path", operator := .startsWith, value := "/tmp/" }] }

/-- A plugin with network access. -/
def networkPlugin : CapabilitySet := CapabilitySet.new.grant "network" .write

/-- The size of a message is not read.  A rule about paths blocks the network, whatever
numbers are. -/
theorem rule_blocks_unrelated :
    (SecurityOperation.ipcMessage "bus" 5000).ownValue "size" = some "5000" ∧
      SecurityCondition.extractFieldValue ⟨"size", .greaterThan, "1000"⟩ (.ipcMessage "bus" 5000) =
        "" ∧
      tmpOnly.Unrelated (.networkAccess "localhost" 443) ∧
      ∀ (F : Type) (floats : Floats F) (debug : SecurityOperation → String),
        AllowsWith floats debug 0 .default networkPlugin (.networkAccess "localhost" 443) 0 [] ∧
          ¬ AllowsWith floats debug 0 .default networkPlugin (.networkAccess "localhost" 443) 0
            [tmpOnly] := by
  have hunrel : tmpOnly.Unrelated (.networkAccess "localhost" 443) := by
    simp [SecurityRule.Unrelated, tmpOnly, SecurityOperation.ownValue]
  refine ⟨by decide, by decide, hunrel, fun F floats debug => ⟨rfl, fun h => ?_⟩⟩
  cases h

end Kaelix.Core.Plugin
