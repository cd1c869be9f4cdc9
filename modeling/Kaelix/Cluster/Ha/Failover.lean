import Kaelix.Cluster.Ha.Client
import Kaelix.Lib.History
import Mathlib.Data.List.Nodup

/-!
# Failover to a working endpoint

Every failure of an endpoint brings it nearer to `Failed`: an endpoint that is not has at most
three failures left (`remainingFailures_le`), and one less after each
(`remainingFailures_recordFailure_lt`).  Failed endpoints are not selected.
-/

namespace Kaelix.Cluster.Ha

open Lib

variable {A T U : Type}

/-! ## Failures that are left -/

variable {e : EndpointInfo A} {config : FailoverClientConfig}

namespace EndpointInfo

/-- How many failures it takes at most until the endpoint has failed. -/
def remainingFailures (e : EndpointInfo A) : Nat :=
  if e.health = .failed then 0 else max 1 (3 - e.consecutiveFailures)

theorem remainingFailures_le (e : EndpointInfo A) : e.remainingFailures ≤ 3 := by
  rw [remainingFailures]
  split <;> omega

theorem remainingFailures_recordFailure_lt (h : e.health ≠ .failed) (now : Int) :
    (e.recordAttempt.recordFailure now).remainingFailures < e.remainingFailures := by
  by_cases hfew : e.consecutiveFailures + 1 ≤ 2
  · simp [remainingFailures, recordFailure, recordAttempt, h, hfew]
    omega
  · simp [remainingFailures, recordFailure, recordAttempt, h, hfew]

theorem address_step {event : EndpointEvent} (e : EndpointInfo A) :
    (e.step config event).address = e.address := by
  cases event with
  | healthCheck =>
    rw [step, healthCheck]
    split <;> rfl
  | _ => rfl

end EndpointInfo

/-- How often the other endpoints may still fail. -/
def remaining [DecidableEq A] (working : A) (endpoints : List (EndpointInfo A)) : Nat :=
  (endpoints.map fun e => if e.address = working then 0 else e.remainingFailures).sum

section

variable [DecidableEq A] {working : A} {endpoints : List (EndpointInfo A)}

theorem remaining_cons (e : EndpointInfo A) :
    remaining working (e :: endpoints) =
      (if e.address = working then 0 else e.remainingFailures) + remaining working endpoints := by
  simp [remaining]

private theorem remaining_le_length : remaining working endpoints ≤ 3 * endpoints.length := by
  induction endpoints with
  | nil => simp [remaining]
  | cons e endpoints ih =>
    have := e.remainingFailures_le
    rw [remaining_cons, List.length_cons]
    split <;> omega

theorem remaining_le (h : ∃ e ∈ endpoints, e.address = working) :
    remaining working endpoints ≤ 3 * (endpoints.length - 1) := by
  induction endpoints with
  | nil => simp at h
  | cons e endpoints ih =>
    rw [remaining_cons, List.length_cons, Nat.add_sub_cancel]
    split
    · simpa using remaining_le_length
    · next hne =>
        obtain ⟨e', hmem, rfl⟩ := h
        have hmem : e' ∈ endpoints := (List.mem_cons.mp hmem).resolve_left fun heq =>
          hne (heq ▸ rfl)
        have hpos := List.length_pos_of_mem hmem
        have := ih ⟨e', hmem, rfl⟩
        have := e.remainingFailures_le
        omega

end

/-! ## Endpoints at an address -/

def addresses (endpoints : List (EndpointInfo A)) : List A := endpoints.map (·.address)

section

variable [DecidableEq A] {address : A} {f g : EndpointInfo A → EndpointInfo A}
  {endpoints : List (EndpointInfo A)}

theorem addresses_updateEndpoint (hf : ∀ e, (f e).address = e.address) :
    addresses (updateEndpoint address f endpoints) = addresses endpoints := by
  induction endpoints with
  | nil => rfl
  | cons e endpoints ih =>
    rw [updateEndpoint]
    split
    · simp [addresses, hf]
    · simpa [addresses] using ih

theorem updateEndpoint_updateEndpoint (hf : ∀ e, (f e).address = e.address) :
    updateEndpoint address g (updateEndpoint address f endpoints) =
      updateEndpoint address (fun e => g (f e)) endpoints := by
  induction endpoints with
  | nil => rfl
  | cons e endpoints ih =>
    by_cases h : e.address = address
    · simp [updateEndpoint, h, hf]
    · simp [updateEndpoint, h, ih]

theorem mem_updateEndpoint_of_ne (h : e ∈ endpoints) (hne : e.address ≠ address) :
    e ∈ updateEndpoint address f endpoints := by
  induction endpoints with
  | nil => cases h
  | cons e' endpoints ih =>
    rw [updateEndpoint]
    cases h with
    | head => simp [hne]
    | tail _ h =>
      split
      · exact List.mem_cons_of_mem _ h
      · exact List.mem_cons_of_mem _ (ih h)

omit [DecidableEq A] in
theorem eq_of_address_eq (hdist : (addresses endpoints).Nodup) {e' : EndpointInfo A}
    (he : e ∈ endpoints) (he' : e' ∈ endpoints) (h : e.address = e'.address) : e = e' :=
  List.inj_on_of_nodup_map hdist he he' h

theorem remaining_updateEndpoint_lt {working : A} {now : Int}
    (hdist : (addresses endpoints).Nodup) (he : e ∈ endpoints) (hhl : e.health ≠ .failed)
    (hne : e.address ≠ working) :
    remaining working
        (updateEndpoint e.address (fun e => e.recordAttempt.recordFailure now) endpoints) <
      remaining working endpoints := by
  induction endpoints with
  | nil => cases he
  | cons e' endpoints ih =>
    rw [updateEndpoint]
    split
    · next heq =>
        cases eq_of_address_eq hdist List.mem_cons_self he heq
        have := EndpointInfo.remainingFailures_recordFailure_lt hhl now
        rw [remaining_cons, remaining_cons, if_neg hne]
        simp only [EndpointInfo.recordFailure, EndpointInfo.recordAttempt, hne, if_false] at this ⊢
        omega
    · next hoth =>
        have hmem : e ∈ endpoints := (List.mem_cons.mp he).resolve_left fun heq =>
          hoth (heq ▸ rfl)
        have := ih (List.nodup_cons.mp hdist).2 hmem
        rw [remaining_cons, remaining_cons]
        omega

end

/-! ## Selection -/

variable {α : Type}

private theorem foldl_mem_cons {f : α → α → α} (h : ∀ x y, f x y = x ∨ f x y = y) (x : α)
    (xs : List α) :
    xs.foldl f x ∈ x :: xs := by
  induction xs generalizing x with
  | nil => exact List.mem_cons_self
  | cons y ys ih =>
    have hmem := List.mem_cons.mp (ih (f x y))
    rw [List.foldl_cons, List.mem_cons, List.mem_cons]
    rcases h x y with heq | heq <;> rw [heq] at hmem ⊢ <;> tauto

private theorem minBy_mem {compare : α → α → Ordering} {xs : List α} {x : α}
    (h : minBy compare xs = some x) : x ∈ xs := by
  cases xs with
  | nil => cases h
  | cons y ys =>
    cases h
    refine foldl_mem_cons (fun x y => ?_) y ys
    split <;> simp

private theorem minBy_eq_none_iff {compare : α → α → Ordering} {xs : List α} :
    minBy compare xs = none ↔ xs = [] := by
  cases xs <;> simp [minBy]

namespace FailoverClient

variable {partialCmp : PartialCmp A} {endpoints : List (EndpointInfo A)}

variable {address : A}

theorem exists_of_selectEndpoint (h : selectEndpoint partialCmp endpoints = .ok address) :
    ∃ e ∈ endpoints, e.address = address ∧ e.health ≠ .failed := by
  rw [selectEndpoint] at h
  split at h
  · next best hbest =>
      obtain ⟨hmem, hhy⟩ := List.mem_filter.mp (minBy_mem hbest)
      refine ⟨best, hmem, by simpa using h, fun hfail => ?_⟩
      simp [EndpointInfo.isHealthy, hfail] at hhy
  · split at h
    · next e rest hrec =>
        obtain ⟨hmem, hhl⟩ := List.mem_filter.mp (hrec ▸ List.mem_cons_self)
        exact ⟨e, hmem, by simpa using h, by simp_all⟩
    · split at h
      · next e rest hdeg =>
          obtain ⟨hmem, hhl⟩ := List.mem_filter.mp (hdeg ▸ List.mem_cons_self)
          exact ⟨e, hmem, by simpa using h, by simp_all⟩
      · cases h

theorem exists_selectEndpoint_eq (he : e ∈ endpoints) (hhl : e.health ≠ .failed) :
    ∃ address, selectEndpoint partialCmp endpoints = .ok address := by
  rw [selectEndpoint]
  split
  · exact ⟨_, rfl⟩
  · next hnone =>
      have hhy := List.filter_eq_nil_iff.mp (minBy_eq_none_iff.mp hnone) e he
      split
      · exact ⟨_, rfl⟩
      · split
        · exact ⟨_, rfl⟩
        · next hdegraded =>
            have hdegraded := List.filter_eq_nil_iff.mp hdegraded e he
            cases hcase : e.health <;> simp_all [EndpointInfo.isHealthy]

theorem selected_not_failed (hdist : (addresses endpoints).Nodup)
    (hsel : selectEndpoint partialCmp endpoints = .ok address) (he : e ∈ endpoints)
    (haddr : e.address = address) : e.health ≠ .failed := by
  obtain ⟨e', he', haddr', hhl⟩ := exists_of_selectEndpoint hsel
  rwa [eq_of_address_eq hdist he he' (haddr.trans haddr'.symm)]

/-! ## A request -/

variable [DecidableEq A] {answers : Answers A T} {working : A}

/-- The endpoints after a failure. -/
def afterFailure (address : A) (now : Int) (endpoints : List (EndpointInfo A)) :
    List (EndpointInfo A) :=
  updateEndpoint address (fun e => e.recordAttempt.recordFailure now) endpoints

/-- A request is served: it returns a response after a number of attempts, and no endpoint that
it contacts has failed at that moment. -/
structure Serves (execution : Execution A T) (attempts : Nat) : Prop where
  returns : ∃ result, execution.outcome = .ok result
  attempts_le : execution.contacts.length ≤ attempts
  contacts : ∀ contact ∈ execution.contacts, ∀ e ∈ contact.2, e.address = contact.1 →
    e.health ≠ .failed

/-- The addresses are distinct, and the working endpoint has not failed. -/
structure Ready (working : A) (endpoints : List (EndpointInfo A)) : Prop where
  distinct : (addresses endpoints).Nodup
  usable : ∃ e ∈ endpoints, e.address = working ∧ e.health ≠ .failed

theorem Ready.afterFailure {now : Int} (h : Ready working endpoints)
    (hne : working ≠ address) : Ready working (afterFailure address now endpoints) where
  distinct := by
    have haddresses : addresses (FailoverClient.afterFailure address now endpoints) =
        addresses endpoints := addresses_updateEndpoint fun _ => rfl
    rw [haddresses]
    exact h.distinct
  usable := by
    obtain ⟨e, he, haddr, hhl⟩ := h.usable
    exact ⟨e, mem_updateEndpoint_of_ne he (haddr ▸ hne), haddr, hhl⟩

variable {self : FailoverClient A} {left retries : Nat}

private theorem executeLoop_of_response {t : T}
    (hsel : selectEndpoint partialCmp self.endpoints = .ok address)
    (hans : answers.respond retries address = .response t) :
    ∃ client, executeLoop partialCmp answers left retries self =
      { client
        outcome := .ok ⟨t, address, retries⟩
        contacts := [(address, self.endpoints)] } := by
  rw [executeLoop, hsel]
  simp only [hans]
  exact ⟨_, rfl⟩

private theorem serves_of_response {t : T}
    {left retries n : Nat} (hdist : (addresses self.endpoints).Nodup)
    (hsel : selectEndpoint partialCmp self.endpoints = .ok address)
    (hans : answers.respond retries address = .response t) :
    Serves (executeLoop partialCmp answers left retries self) (n + 1) := by
  obtain ⟨client, heq⟩ := executeLoop_of_response hsel hans
  rw [heq]
  refine ⟨⟨_, rfl⟩, by simp, fun contact hcont => ?_⟩
  rw [List.mem_singleton.mp hcont]
  exact fun e he haddr => selected_not_failed hdist hsel he haddr

private theorem executeLoop_of_no_response
    (hsel : selectEndpoint partialCmp self.endpoints = .ok address)
    (hans : ∀ t, answers.respond retries address ≠ .response t) :
    executeLoop partialCmp answers (left + 1) retries self =
      let execution := executeLoop partialCmp answers left (retries + 1)
        { self with endpoints := afterFailure address (answers.now retries) self.endpoints }
      { execution with contacts := (address, self.endpoints) :: execution.contacts } := by
  have hupdate : updateEndpoint address (·.recordFailure (answers.now retries))
      (updateEndpoint address (·.recordAttempt) self.endpoints) =
        afterFailure address (answers.now retries) self.endpoints :=
    updateEndpoint_updateEndpoint fun _ => rfl
  rw [executeLoop, hsel]
  cases h : answers.respond retries address with
  | response t => exact absurd h (hans t)
  | _ => simp only [h, hupdate]

section

variable (hanss : ∀ k, ∃ t, answers.respond k working = .response t)
include hanss

private theorem attempt_cases (hready : Ready working endpoints) (retries : Nat) :
    ∃ address, selectEndpoint partialCmp endpoints = .ok address ∧
      ((∃ t, answers.respond retries address = .response t) ∨
        (∀ t, answers.respond retries address ≠ .response t) ∧ working ≠ address ∧
          remaining working (afterFailure address (answers.now retries) endpoints) <
            remaining working endpoints) := by
  obtain ⟨e, he, -, hhl⟩ := hready.usable
  obtain ⟨address, hsel⟩ := exists_selectEndpoint_eq he hhl
  refine ⟨address, hsel, ?_⟩
  by_cases hans : ∃ t, answers.respond retries address = .response t
  · exact .inl hans
  · have hne : working ≠ address := fun heq => hans (heq ▸ hanss retries)
    obtain ⟨e', he', rfl, hhl'⟩ := exists_of_selectEndpoint hsel
    exact .inr ⟨not_exists.mp hans, hne,
      remaining_updateEndpoint_lt hready.distinct he' hhl' hne.symm⟩

/-- The loop serves the request if the retries that are left are enough for the failures that
are left. -/
theorem executeLoop_serves (hready : Ready working self.endpoints)
    (hleft : remaining working self.endpoints ≤ left) :
    Serves (executeLoop partialCmp answers left retries self)
      (remaining working self.endpoints + 1) := by
  induction left generalizing retries self with
  | zero =>
    obtain ⟨address, hsel, ⟨t, ht⟩ | ⟨-, -, hlt⟩⟩ := attempt_cases hanss hready retries
    · exact serves_of_response hready.distinct hsel ht
    · omega
  | succ left ih =>
    obtain ⟨address, hsel, ⟨t, ht⟩ | ⟨hnone, hne, hlt⟩⟩ :=
      attempt_cases hanss hready retries
    · exact serves_of_response hready.distinct hsel ht
    · rw [executeLoop_of_no_response hsel hnone]
      have hrest : Serves (executeLoop partialCmp answers left (retries + 1)
          { self with endpoints := afterFailure address (answers.now retries) self.endpoints }) _ :=
        ih (hready.afterFailure hne) (by simp only; omega)
      refine ⟨hrest.returns, ?_, ?_⟩
      · have := hrest.attempts_le
        simp only [List.length_cons] at this ⊢
        omega
      · intro contact hcont
        rcases List.mem_cons.mp hcont with rfl | hcont
        · exact fun e he haddr => selected_not_failed hready.distinct hsel he haddr
        · exact hrest.contacts contact hcont

end

/-! ## Reachable clients -/

/-- Every change to the endpoints of a client keeps the property. -/
structure Kept (P : FailoverClientConfig → List (EndpointInfo A) → Prop) : Prop where
  added : ∀ {config endpoints address}, ¬ endpoints.any (·.address = address) = true →
    P config endpoints → P config (endpoints ++ [.new address])
  filtered : ∀ {config endpoints} p, P config endpoints → P config (endpoints.filter p)
  updated : ∀ {config endpoints} address event, P config endpoints →
    P config (updateEndpoint address (·.step config event) endpoints)
  checked : ∀ {config endpoints} (now : A → Int), P config endpoints →
    P config (endpoints.map fun e => e.step config (.healthCheck (now e.address)))

namespace Kept

variable {P : FailoverClientConfig → List (EndpointInfo A) → Prop} {self : FailoverClient A}

private theorem executeLoop (hP : Kept P) (h : P self.config self.endpoints) (left retries : Nat) :
    P (executeLoop partialCmp answers left retries self).client.config
      (executeLoop partialCmp answers left retries self).client.endpoints := by
  have hsucc : ∀ {self : FailoverClient A} address duration now,
      P self.config self.endpoints → P self.config
        (updateEndpoint address (·.recordSuccess duration now)
          (updateEndpoint address (·.recordAttempt) self.endpoints)) :=
    fun address duration now h =>
      hP.updated address (.success duration now) (hP.updated address .attempt h)
  have hfailure : ∀ {self : FailoverClient A} address now,
      P self.config self.endpoints → P self.config
        (updateEndpoint address (·.recordFailure now)
          (updateEndpoint address (·.recordAttempt) self.endpoints)) := fun address now h =>
    hP.updated address (.failure now) (hP.updated address .attempt h)
  induction left generalizing retries self with
  | zero =>
    rw [FailoverClient.executeLoop]
    split
    · exact h
    · split
      · exact hsucc _ _ _ h
      · exact hfailure _ _ h
      · exact hfailure _ _ h
  | succ left ih =>
    rw [FailoverClient.executeLoop]
    split
    · exact h
    · split
      · exact hsucc _ _ _ h
      · exact ih (hfailure _ _ h) _
      · exact ih (hfailure _ _ h) _

private theorem step (hP : Kept P) (h : P self.config self.endpoints) (event : Event A U) :
    P (step self event).config (step self event).endpoints := by
  cases event with
  | addEndpoint =>
    rw [FailoverClient.step, FailoverClient.addEndpoint]
    split
    · exact h
    · next hnew => exact hP.added hnew h
  | removeEndpoint =>
    rw [FailoverClient.step, FailoverClient.removeEndpoint]
    split <;> exact hP.filtered _ h
  | topologyChange change =>
    cases change with
    | nodeAdded =>
      rw [FailoverClient.step, applyTopologyChange]
      split
      · exact h
      · next hnew => exact hP.added hnew h
    | nodeRemoved => exact hP.filtered _ h
    | nodeUpdated address => exact hP.updated address .nodeUpdated h
  | healthTick now => exact hP.checked now h
  | request => exact hP.executeLoop h _ _

theorem run (hP : Kept P) (h : P config []) (events : List (Event A U)) :
    P (events.foldl FailoverClient.step (new config [])).config
      (events.foldl FailoverClient.step (new config [])).endpoints :=
  (always_of_step (P := fun self : FailoverClient A => P self.config self.endpoints) h
    fun _ event h => hP.step h event).last

end Kept

private theorem nodup_append_new (h : (addresses endpoints).Nodup)
    (hnew : ¬ endpoints.any (·.address = address) = true) :
    (addresses (endpoints ++ [.new address])).Nodup := by
  rw [addresses, List.map_append, List.nodup_append]
  refine ⟨h, List.nodup_singleton _, fun a ha b hb heq => hnew ?_⟩
  obtain ⟨e, he, rfl⟩ := List.mem_map.mp ha
  refine List.any_eq_true.mpr ⟨e, he, decide_eq_true (heq.trans ?_)⟩
  simpa [EndpointInfo.new] using hb

omit [DecidableEq A] in
private theorem nodup_filter (p : EndpointInfo A → Bool) (h : (addresses endpoints).Nodup) :
    (addresses (endpoints.filter p)).Nodup :=
  h.sublist (List.filter_sublist.map _)

theorem kept_nodup : Kept fun _ (endpoints : List (EndpointInfo A)) =>
    (addresses endpoints).Nodup where
  added hnew h := nodup_append_new h hnew
  filtered p h := nodup_filter p h
  updated address event h := by
    rw [addresses_updateEndpoint fun e => e.address_step]
    exact h
  checked now h := by
    simpa [addresses, Function.comp_def, EndpointInfo.address_step] using h

/-- If an endpoint that has not failed always answers, a request returns a response after at most
three attempts for each of the others and one more.  It never contacts an endpoint that has
failed. -/
theorem failover_finds_working (config : FailoverClientConfig) (events : List (Event A U))
    (partialCmp : PartialCmp A) (answers : Answers A T) (working : A)
    (client : FailoverClient A) (hclient : client = events.foldl step (new config []))
    (hwork : ∃ e ∈ client.endpoints, e.address = working ∧ e.health ≠ .failed)
    (hanss : ∀ k, ∃ t, answers.respond k working = .response t)
    (hretries : 3 * (client.endpoints.length - 1) ≤ client.config.maxRetries) :
    Serves (client.executeRequest partialCmp answers)
      (3 * (client.endpoints.length - 1) + 1) := by
  have hready : Ready working client.endpoints :=
    ⟨hclient ▸ kept_nodup.run List.nodup_nil events, hwork⟩
  have hrem : remaining working client.endpoints ≤ 3 * (client.endpoints.length - 1) := by
    obtain ⟨e, he, haddr, -⟩ := hwork
    exact remaining_le ⟨e, he, haddr⟩
  have hserv : Serves (client.executeRequest partialCmp answers) _ :=
    executeLoop_serves hanss hready (Nat.le_trans hrem hretries)
  exact ⟨hserv.returns, Nat.le_trans hserv.attempts_le (Nat.succ_le_succ hrem),
    hserv.contacts⟩

def addTwo : List (Event Nat Unit) := [.addEndpoint 1, .addEndpoint 2]

/-- Of two endpoints only the second one answers. -/
theorem failover_finds_working_second :
    Serves (executeRequest (fun _ _ => none)
      ⟨fun _ address => if address = 2 then .response () else .failed, fun _ => 0, fun _ => 0⟩
      (addTwo.foldl step (new ⟨3, 5, 60⟩ []))) 4 :=
  failover_finds_working ⟨3, 5, 60⟩ addTwo _ _ 2 _ rfl (by decide) (fun _ => ⟨(), rfl⟩)
    (by decide)

end FailoverClient

end Kaelix.Cluster.Ha
