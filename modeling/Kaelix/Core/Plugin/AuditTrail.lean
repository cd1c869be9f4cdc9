import Kaelix.Core.Plugin.SecurityRules
import Kaelix.Lib.History

/-!
# The audit trail of a security context

The audit configuration asks for a record of denied operations and has a limit for the number of
entries.  `check_operation` reads none of it: it records the operations that it allows, all of
them, and no others.
-/

namespace Kaelix.Core.Plugin

open Lib

variable {F : Type} (floats : Floats F) (debug : SecurityOperation → String)

/-- An operation, and when it is checked. -/
structure Check where
  operation : SecurityOperation
  now : Nat
  deriving DecidableEq

namespace SecurityContext

section

variable (self : SecurityContext)

/-- The check passes. -/
def allows (check : Check) : Bool :=
  (self.checkOperation floats debug check.operation check.now).1.isOk

/-- The context after the check. -/
def after (check : Check) : SecurityContext :=
  (self.checkOperation floats debug check.operation check.now).2

/-- The trail has this one event more. -/
def Ends (older : List SecurityEvent) (operation : SecurityOperation) (allowed : Bool) : Prop :=
  ∃ e, self.auditTrail = older ++ [e] ∧ e.operation = operation ∧ e.allowed = allowed

end

/-- What a call should do to the trail: a denied one is recorded at the end, an allowed one is
at most recorded there.  Old events may go, but there are not too many. -/
structure Audits (context : SecurityContext) (check : Check) : Prop where
  denied : context.allows floats debug check = false → ∃ older, older <:+ context.auditTrail ∧
    (context.after floats debug check).Ends older check.operation false
  allowed : context.allows floats debug check = true → ∃ older, older <:+ context.auditTrail ∧
    ((context.after floats debug check).auditTrail = older ∨
      (context.after floats debug check).Ends older check.operation true)
  bounded : (context.after floats debug check).auditTrail.length ≤
    context.policy.auditConfig.maxAuditEntries

/-! ## One call -/

variable {floats debug} {self : SecurityContext} {check : Check}

theorem after_of_allowed (h : self.allows floats debug check = true) :
    self.after floats debug check =
      { self with auditTrail := self.auditTrail ++ [.new check.now check.operation true] } := by
  unfold allows checkOperation at h
  unfold after checkOperation
  split at h
  · cases h
  · next hcap =>
      rw [if_neg hcap]
      split at h
      · cases h
      · rfl

private theorem after_of_denied (h : self.allows floats debug check = false) :
    self.after floats debug check = self := by
  unfold allows checkOperation at h
  unfold after checkOperation
  split at h
  · next hcap => rw [if_pos hcap]
  · next hcap =>
      rw [if_neg hcap]
      split at h
      · rfl
      · cases h

theorem allows_after (check' : Check) :
    (self.after floats debug check).allows floats debug check' =
      self.allows floats debug check' := by
  cases h : self.allows floats debug check with
  | false => rw [after_of_denied h]
  | true =>
    rw [after_of_allowed h, Bool.eq_iff_iff, allows, allows, checkOperation_isOk_iff,
      checkOperation_isOk_iff]
    rfl

theorem audits_iff (h : ∀ e ∈ self.auditTrail, e.allowed = true) :
    self.Audits floats debug check ↔ self.allows floats debug check = true ∧
      self.auditTrail.length + 1 ≤ self.policy.auditConfig.maxAuditEntries := by
  cases hall : self.allows floats debug check with
  | false =>
    refine iff_of_false (fun haud => ?_) (by simp)
    obtain ⟨older, -, e, htrail, -, hden⟩ := haud.denied hall
    rw [after_of_denied hall] at htrail
    have hallow := h e (by simp [htrail])
    rw [hden] at hallow
    cases hallow
  | true =>
    have hafter := after_of_allowed hall
    constructor
    · intro haud
      have hbd := haud.bounded
      rw [hafter] at hbd
      simpa using hbd
    · intro hroom
      refine ⟨fun hden => ?_, fun _ => ?_, ?_⟩
      · rw [hall] at hden
        cases hden
      · rw [hafter]
        exact ⟨self.auditTrail, List.suffix_refl _, .inr ⟨_, rfl, rfl, rfl⟩⟩
      · rw [hafter]
        simpa using hroom.2

/-! ## Sequences of calls -/

variable (floats debug self) in
private theorem eachStep_audits_iff (checks : List Check)
    (hevs : ∀ e ∈ self.auditTrail, e.allowed = true)
    (hroom : self.auditTrail.length ≤ self.policy.auditConfig.maxAuditEntries) :
    EachStep (after floats debug) (Audits floats debug) self checks ↔
      (∀ check ∈ checks, self.allows floats debug check = true) ∧
        self.auditTrail.length + checks.length ≤ self.policy.auditConfig.maxAuditEntries := by
  induction checks generalizing self with
  | nil => simpa using iff_of_true eachStep_nil hroom
  | cons check checks ih =>
    rw [eachStep_cons, audits_iff hevs]
    cases hall : self.allows floats debug check with
    | false => simp [hall]
    | true =>
      have hafter := after_of_allowed hall
      by_cases hnext : self.auditTrail.length + 1 ≤ self.policy.auditConfig.maxAuditEntries
      · have hevs' : ∀ e ∈ (self.after floats debug check).auditTrail, e.allowed = true := by
          rw [hafter]
          exact List.forall_mem_append.mpr ⟨hevs, by simp [SecurityEvent.new]⟩
        have hroom' : (self.after floats debug check).auditTrail.length ≤
            (self.after floats debug check).policy.auditConfig.maxAuditEntries := by
          rw [hafter]
          simpa using hnext
        rw [ih _ hevs' hroom']
        simp only [allows_after]
        simp [hafter, hall, hnext, Nat.add_assoc, Nat.add_comm 1]
      · refine iff_of_false (fun h => hnext h.1.2) fun h => hnext ?_
        have hlen := h.2
        rw [List.length_cons] at hlen
        omega

private theorem length_auditTrail_replicate (h : self.allows floats debug check = true) (n : Nat) :
    ((List.replicate n check).foldl (after floats debug) self).auditTrail.length =
      self.auditTrail.length + n := by
  induction n generalizing self with
  | zero => rfl
  | succ n ih =>
    rw [List.replicate_succ, List.foldl_cons, ih ((allows_after check).trans h),
      after_of_allowed h, List.length_append, List.length_singleton]
    omega

end SecurityContext

/-- Under the default audit configuration, over every sequence of calls on a new context: the
trail is kept as it should be iff all operations have their capability, no rule is against them,
and they are not too many. -/
theorem audit_trail_iff (id : BitVec 128) (policy : SecurityPolicy)
    (capabilities : CapabilitySet) (checks : List Check) :
    let context := SecurityContext.withPolicy id { policy with auditConfig := .default }
      capabilities
    EachStep (SecurityContext.after floats debug) (SecurityContext.Audits floats debug) context
        checks ↔
      (∀ check ∈ checks, context.allowsOperation check.operation ∧
        ∀ rule ∈ policy.customRules, rule.allowsOperation floats check.operation) ∧
        checks.length ≤ AuditConfig.default.maxAuditEntries := by
  intro context
  rw [context.eachStep_audits_iff floats debug checks
    (by simp [context, SecurityContext.withPolicy]) (Nat.zero_le _)]
  refine and_congr (forall₂_congr fun check _ =>
    context.checkOperation_isOk_iff floats debug _ _) ?_
  simp [context, SecurityContext.withPolicy]

/-- The context with all defaults. -/
def safeContext : SecurityContext := .withPolicy 0 .default .defaultSafe

/-- A denied operation leaves no event, and there can be more events than the limit. -/
theorem audit_trail_fails :
    (∀ (F : Type) (floats : Floats F) (debug : SecurityOperation → String),
      let check : Check := ⟨.fileSystemRead "/etc/passwd", 0⟩
      safeContext.allows floats debug check = false ∧
        (safeContext.after floats debug check).auditTrail = [] ∧
        ¬ safeContext.Audits floats debug check) ∧
    ∀ (F : Type) (floats : Floats F) (debug : SecurityOperation → String),
      let checks := List.replicate 10001 ⟨.memoryAllocation 1, 0⟩
      (checks.foldl (SecurityContext.after floats debug) safeContext).auditTrail.length =
        safeContext.policy.auditConfig.maxAuditEntries + 1 := by
  constructor
  · intro F floats debug check
    have hden : safeContext.allows floats debug check = false := rfl
    refine ⟨hden, rfl, fun haud => ?_⟩
    have hallow := ((SecurityContext.audits_iff (by simp [safeContext,
      SecurityContext.withPolicy])).mp haud).1
    rw [hden] at hallow
    cases hallow
  · intro F floats debug checks
    have hallow : safeContext.allows floats debug ⟨.memoryAllocation 1, 0⟩ = true := rfl
    exact (SecurityContext.length_auditTrail_replicate hallow 10001).trans (by decide)

end Kaelix.Core.Plugin
