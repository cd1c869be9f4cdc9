import Kaelix.Lib.HashMap

/-!
# Plugin security

`plugin/security.rs`: the capabilities of a plugin, the rules of a policy, and
`SecurityContext::check_operation`, which asks both and keeps the audit trail.

Numbers in texts are read as `f64`.  What these are and which texts are numbers is left open;
the empty text is not one.  The derived `Debug` text of an operation is left open too.
-/

namespace Kaelix.Core.Plugin

open Lib

/-- What a capability permits. -/
inductive PermissionLevel where
  | none | read | write | admin
  deriving DecidableEq

/-- The level of each capability. -/
structure CapabilitySet where
  capabilities : HashMap String PermissionLevel

namespace CapabilitySet

/-- No capabilities. -/
def new : CapabilitySet := ⟨∅⟩

variable (s : CapabilitySet)

/-- The level replaces an earlier one. -/
def grant (capability : String) (level : PermissionLevel) : CapabilitySet :=
  ⟨s.capabilities.insert capability level⟩

/-- What a plugin has by default. -/
def defaultSafe : CapabilitySet := (new.grant "log" .write).grant "memory" .read

/-- Any level but `none` counts. -/
def hasCapability (capability : String) : Bool :=
  match s.capabilities.lookup capability with
  | some level => level ≠ .none
  | none => false

/-- How many capabilities have a level. -/
def capabilitiesCount : Nat := s.capabilities.keys.length

end CapabilitySet

/-- How bad a finding is. -/
inductive ThreatLevel where
  | minimal | low | medium | high | critical
  deriving DecidableEq

/-- What a plugin asks to do. -/
inductive SecurityOperation where
  | networkAccess (host : String) (port : UInt16)
  | fileSystemRead (path : String)
  | fileSystemWrite (path : String)
  | memoryAllocation (size : Nat)
  | systemCall (call : String)
  | ipcMessage (target : String) (size : Nat)
  deriving DecidableEq

/-! ## Rules -/

/-- What the conditions use of `f64`. -/
structure Floats (F : Type) where
  zero : F
  lt : F → F → Bool
  parse : String → Option F
  parse_empty : parse "" = none

/-- A text that is no number counts as zero. -/
def Floats.number {F : Type} (floats : Floats F) (text : String) : F :=
  (floats.parse text).getD floats.zero

inductive ConditionOperator where
  | equals | notEquals | contains | startsWith | endsWith | greaterThan | lessThan
  deriving DecidableEq

variable {F : Type} (floats : Floats F)

/-- Comparisons of size are between numbers. -/
def ConditionOperator.matches (fieldValue conditionValue : String) : ConditionOperator → Bool
  | .equals => fieldValue = conditionValue
  | .notEquals => fieldValue ≠ conditionValue
  | .contains => conditionValue.toList <:+: fieldValue.toList
  | .startsWith => conditionValue.toList <+: fieldValue.toList
  | .endsWith => conditionValue.toList <:+ fieldValue.toList
  | .greaterThan => floats.lt (floats.number conditionValue) (floats.number fieldValue)
  | .lessThan => floats.lt (floats.number fieldValue) (floats.number conditionValue)

/-- A test of one field of an operation. -/
structure SecurityCondition where
  field : String
  operator : ConditionOperator
  value : String
  deriving DecidableEq

namespace SecurityCondition

/-- A field that the operation lacks is empty. -/
def extractFieldValue (c : SecurityCondition) (operation : SecurityOperation) : String :=
  match c.field, operation with
  | "host", .networkAccess host _ => host
  | "port", .networkAccess _ port => toString port.toNat
  | "path", .fileSystemRead path => path
  | "path", .fileSystemWrite path => path
  | "size", .memoryAllocation size => toString size
  | "call", .systemCall call => call
  | "target", .ipcMessage target _ => target
  | _, _ => ""

/-- The condition holds of the operation. -/
def matchesOperation (c : SecurityCondition) (operation : SecurityOperation) : Bool :=
  c.operator.matches floats (c.extractFieldValue operation) c.value

end SecurityCondition

/-- What a matching rule decides. -/
inductive SecurityRuleType where
  | allow | deny
  deriving DecidableEq

/-- A rule that allows or denies by conditions. -/
structure SecurityRule where
  name : String
  ruleType : SecurityRuleType
  conditions : List SecurityCondition
  deriving DecidableEq

/-- One condition that holds decides. -/
def SecurityRule.allowsOperation (rule : SecurityRule) (operation : SecurityOperation) : Bool :=
  match rule.ruleType with
  | .allow => rule.conditions.any (·.matchesOperation floats operation)
  | .deny => !rule.conditions.any (·.matchesOperation floats operation)

/-! ## The context -/

/-- What is written to the trail. -/
structure AuditConfig where
  enabled : Bool
  logAllOperations : Bool
  logDeniedOperations : Bool
  maxAuditEntries : Nat
  auditFilePath : Option String
  deriving DecidableEq

def AuditConfig.default : AuditConfig :=
  { enabled := true
    logAllOperations := false
    logDeniedOperations := true
    maxAuditEntries := 10000
    auditFilePath := some "plugin_security_audit.log" }

/-- The rules for a plugin. -/
structure SecurityPolicy where
  defaultCapabilities : CapabilitySet
  maxThreatLevel : ThreatLevel
  sandboxEnabled : Bool
  customRules : List SecurityRule
  auditConfig : AuditConfig

def SecurityPolicy.default : SecurityPolicy :=
  { defaultCapabilities := .defaultSafe
    maxThreatLevel := .medium
    sandboxEnabled := true
    customRules := []
    auditConfig := .default }

/-- An entry of the trail. -/
structure SecurityEvent where
  timestamp : Nat
  operation : SecurityOperation
  allowed : Bool
  threatLevel : Option ThreatLevel
  deriving DecidableEq

def SecurityEvent.new (now : Nat) (operation : SecurityOperation) (allowed : Bool) :
    SecurityEvent :=
  { timestamp := now, operation, allowed, threatLevel := none }

inductive PluginError where
  | securityViolation (message : String)
  deriving DecidableEq

/-- A plugin with its rights and its trail. -/
structure SecurityContext where
  id : BitVec 128
  policy : SecurityPolicy
  capabilities : CapabilitySet
  threatLevel : ThreatLevel
  auditTrail : List SecurityEvent

namespace SecurityContext

/-- The level grows with the number of capabilities. -/
def assessThreatLevel (capabilities : CapabilitySet) : ThreatLevel :=
  let capabilityCount := capabilities.capabilitiesCount
  if capabilityCount ≤ 2 then .minimal
  else if capabilityCount ≤ 5 then .low
  else if capabilityCount ≤ 10 then .medium
  else if capabilityCount ≤ 20 then .high
  else .critical

/-- A context with an empty trail. -/
def withPolicy (id : BitVec 128) (policy : SecurityPolicy) (capabilities : CapabilitySet) :
    SecurityContext :=
  { id, policy, capabilities, threatLevel := assessThreatLevel capabilities, auditTrail := [] }

/-- The capability that the operation needs is there. -/
def allowsOperation (self : SecurityContext) (operation : SecurityOperation) : Bool :=
  match operation with
  | .networkAccess .. => self.capabilities.hasCapability "network"
  | .fileSystemRead .. => self.capabilities.hasCapability "filesystem_read"
  | .fileSystemWrite .. => self.capabilities.hasCapability "filesystem_write"
  | .memoryAllocation .. => self.capabilities.hasCapability "memory"
  | .systemCall .. => self.capabilities.hasCapability "system"
  | .ipcMessage .. => self.capabilities.hasCapability "ipc"

/-- `SecurityContext::check_operation`, at `now`; `debug` is the `Debug` text. -/
def checkOperation (debug : SecurityOperation → String) (self : SecurityContext)
    (operation : SecurityOperation) (now : Nat) : Except PluginError Unit × SecurityContext :=
  if !self.allowsOperation operation then
    (.error (.securityViolation
      ("Operation not allowed by capabilities: " ++ debug operation)), self)
  else
    match self.policy.customRules.find? (!·.allowsOperation floats operation) with
    | some rule =>
      (.error (.securityViolation ("Operation blocked by security rule: " ++ rule.name)), self)
    | none =>
      (.ok (), { self with auditTrail := self.auditTrail ++ [.new now operation true] })

end SecurityContext

end Kaelix.Core.Plugin
