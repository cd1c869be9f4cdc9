import Kaelix.Cluster.Ha.Failover

/-!
# The circuit breaker of an endpoint

An endpoint of the failover client lives through attempts, successes, failures, changes of the
topology and health checks; every endpoint of a client has such a history.  So a failed endpoint
that answers again is found again (`client_comes_back`).

`record_failure` counts to three whatever `circuit_breaker_threshold` says, and it counts from the
last success: a change into `Recovering` does not set the counter back.
-/

namespace Kaelix.Cluster.Ha

open Lib

variable {A U : Type}

section

variable (config : FailoverClientConfig)

variable (address : A)

def EndpointInfo.after (events : List EndpointEvent) : EndpointInfo A :=
  events.foldl (EndpointInfo.step config) (.new address)

/-! ## Failures of a history -/

/-- How many failures there are since the last success, or from the beginning. -/
def failuresSinceSuccess (events : List EndpointEvent) : Nat :=
  events.foldl (fun failures event =>
    match event with
    | .success _ _ => 0
    | .failure _ => failures + 1
    | .attempt | .nodeUpdated | .healthCheck _ => failures) 0

/-- An endpoint and the number of its failures since the last success or since it was last put
into `Recovering`, after one more event. -/
def countFailures (s : EndpointInfo A × Nat) (event : EndpointEvent) : EndpointInfo A × Nat :=
  (s.1.step config event,
    match event with
    | .success _ _ | .nodeUpdated => 0
    | .failure _ => s.2 + 1
    | .healthCheck now => if s.1.recovers config now then 0 else s.2
    | .attempt => s.2)

/-- How many failures there are since the last success or since the endpoint was last put into
`Recovering`, or from the beginning. -/
def failuresSinceReset (events : List EndpointEvent) : Nat :=
  (events.foldl (countFailures config) (.new address, 0)).2

section

variable (events : List EndpointEvent)

theorem failuresSinceSuccess_concat (event : EndpointEvent) :
    failuresSinceSuccess (events ++ [event]) =
      match event with
      | .success _ _ => 0
      | .failure _ => failuresSinceSuccess events + 1
      | .attempt | .nodeUpdated | .healthCheck _ => failuresSinceSuccess events := by
  rw [failuresSinceSuccess, List.foldl_append]
  rfl

private theorem foldl_countFailures_fst :
    (events.foldl (countFailures config) (.new address, 0)).1 = .after config address events := by
  rw [EndpointInfo.after]
  generalize EndpointInfo.new address = e, 0 = failures
  induction events generalizing e failures with
  | nil => rfl
  | cons event events ih => exact ih _ _

private theorem failuresSinceReset_concat (event : EndpointEvent) :
    failuresSinceReset config address (events ++ [event]) =
      match event with
      | .success _ _ | .nodeUpdated => 0
      | .failure _ => failuresSinceReset config address events + 1
      | .healthCheck now =>
        if (EndpointInfo.after config address events).recovers config now then 0
        else failuresSinceReset config address events
      | .attempt => failuresSinceReset config address events := by
  rw [failuresSinceReset, List.foldl_append, ← foldl_countFailures_fst]
  rfl

theorem after_concat (event : EndpointEvent) :
    EndpointInfo.after config address (events ++ [event]) =
      (EndpointInfo.after config address events).step config event := by
  rw [EndpointInfo.after, List.foldl_append]
  rfl

private theorem consecutiveFailures_after :
    (EndpointInfo.after config address events).consecutiveFailures =
      failuresSinceSuccess events := by
  induction events using List.reverseRecOn with
  | nil => rfl
  | append_singleton events event ih =>
    rw [after_concat, failuresSinceSuccess_concat]
    cases event with
    | attempt | nodeUpdated => exact ih
    | success => rfl
    | failure => exact congrArg (· + 1) ih
    | healthCheck =>
      rw [EndpointInfo.step, EndpointInfo.healthCheck]
      split <;> exact ih

private theorem health_eq_failed_iff :
    (EndpointInfo.after config address events).health = .failed ↔
      1 ≤ failuresSinceReset config address events ∧ 3 ≤ failuresSinceSuccess events := by
  induction events using List.reverseRecOn with
  | nil => simp [EndpointInfo.after, EndpointInfo.new, failuresSinceSuccess]
  | append_singleton events event ih =>
    rw [after_concat, failuresSinceReset_concat, failuresSinceSuccess_concat]
    cases event with
    | attempt => exact ih
    | success => simp [EndpointInfo.step, EndpointInfo.recordSuccess]
    | failure =>
      have hcnt := consecutiveFailures_after config address events
      simp only [EndpointInfo.step, EndpointInfo.recordFailure, hcnt]
      split <;> simp <;> omega
    | nodeUpdated => simp [EndpointInfo.step, EndpointInfo.markRecovering]
    | healthCheck now =>
      by_cases h : (EndpointInfo.after config address events).recovers config now = true
      · simp [EndpointInfo.step, EndpointInfo.healthCheck, EndpointInfo.markRecovering, h]
      · simpa [EndpointInfo.step, EndpointInfo.healthCheck, h] using ih

end

/-- An endpoint has failed exactly when the threshold is reached by the failures since its last
success or since it was last put into `Recovering`, iff the history is such that enough of these
failures are three since the last success, and three since the last success are enough of these
failures or none. -/
theorem circuit_breaker_iff (config : FailoverClientConfig) (address : A)
    (events : List EndpointEvent) (hthreshold : 1 ≤ config.circuitBreakerThreshold) :
    ((EndpointInfo.after config address events).health = .failed ↔
        config.circuitBreakerThreshold ≤ failuresSinceReset config address events) ↔
      (config.circuitBreakerThreshold ≤ failuresSinceReset config address events →
        3 ≤ failuresSinceSuccess events) ∧
      (3 ≤ failuresSinceSuccess events →
        failuresSinceReset config address events = 0 ∨
          config.circuitBreakerThreshold ≤ failuresSinceReset config address events) := by
  rw [health_eq_failed_iff]
  omega

/-- A success, three failures, and a threshold of three. -/
theorem circuit_breaker_three :
    (EndpointInfo.after ⟨3, 3, 60⟩ 1 [.success 5 0, .failure 1, .failure 2, .failure 3]).health =
      .failed :=
  ((circuit_breaker_iff ⟨3, 3, 60⟩ 1 [.success 5 0, .failure 1, .failure 2, .failure 3]
    (by decide)).mpr (by decide)).mpr (by decide)

/-- With the default threshold of five, an endpoint has failed after three failures.  With a
threshold of two it has not after two.  With a threshold of three, one that is put into
`Recovering` after three failures has failed after one more. -/
theorem circuit_breaker_fails :
    ((EndpointInfo.after ⟨3, 5, 60⟩ 1 [.failure 1, .failure 2, .failure 3]).health = .failed ∧
      failuresSinceReset ⟨3, 5, 60⟩ 1 [.failure 1, .failure 2, .failure 3] = 3) ∧
    ((EndpointInfo.after ⟨3, 2, 60⟩ 1 [.failure 1, .failure 2]).health = .degraded ∧
      failuresSinceReset ⟨3, 2, 60⟩ 1 [.failure 1, .failure 2] = 2) ∧
    (EndpointInfo.after ⟨3, 3, 60⟩ 1
        [.failure 1, .failure 2, .failure 3, .healthCheck 100, .failure 101]).health = .failed ∧
      failuresSinceReset ⟨3, 3, 60⟩ 1
        [.failure 1, .failure 2, .failure 3, .healthCheck 100, .failure 101] = 1 := by
  decide

/-! ## Endpoints of a client -/

/-- Some events have made the endpoint what it is. -/
def HasHistory (e : EndpointInfo A) : Prop :=
  ∃ events, .after config e.address events = e

private theorem hasHistory_new :
    HasHistory config (EndpointInfo.new address) := ⟨[], rfl⟩

end

theorem HasHistory.step {config : FailoverClientConfig} {e : EndpointInfo A}
    (h : HasHistory config e) (event : EndpointEvent) : HasHistory config
    (e.step config event) := by
  obtain ⟨events, hevs⟩ := h
  exact ⟨events ++ [event], by rw [EndpointInfo.address_step, after_concat, hevs]⟩

section

variable [DecidableEq A] {config : FailoverClientConfig} {endpoints : List (EndpointInfo A)}
    {address : A}

private theorem mem_updateEndpoint {f : EndpointInfo A → EndpointInfo A} {e : EndpointInfo A}
    (h : e ∈ updateEndpoint address f endpoints) :
    e ∈ endpoints ∨ ∃ e' ∈ endpoints, e = f e' := by
  induction endpoints with
  | nil => cases h
  | cons e' endpoints ih =>
    rw [updateEndpoint] at h
    split at h <;> simp only [List.mem_cons, exists_eq_or_imp] at h ⊢ <;> tauto

private theorem hasHistory_updateEndpoint (event : EndpointEvent)
    (h : ∀ e ∈ endpoints, HasHistory config e) :
    ∀ e ∈ updateEndpoint address (·.step config event) endpoints, HasHistory config e := by
  intro e he
  rcases mem_updateEndpoint he with he | ⟨e', he', rfl⟩
  · exact h e he
  · exact (h e' he').step event

omit [DecidableEq A] in
private theorem hasHistory_append_new (h : ∀ e ∈ endpoints, HasHistory config e) :
    ∀ e ∈ endpoints ++ [.new address], HasHistory config e := by
  intro e he
  rcases List.mem_append.mp he with he | he
  · exact h e he
  · rw [List.mem_singleton.mp he]
    exact hasHistory_new config address

namespace FailoverClient

/-- Every endpoint has a history under the configuration of the client. -/
def Histories (self : FailoverClient A) : Prop := ∀ e ∈ self.endpoints, HasHistory self.config e

private theorem kept_hasHistory : Kept fun config (endpoints : List (EndpointInfo A)) =>
    ∀ e ∈ endpoints, HasHistory config e where
  added _ h := hasHistory_append_new h
  filtered _ h e he := h e (List.mem_of_mem_filter he)
  updated _ event h := hasHistory_updateEndpoint event h
  checked now h e he := by
    obtain ⟨e', he', rfl⟩ := List.mem_map.mp he
    exact (h e' he').step (.healthCheck _)

private theorem hasHistory_of_reachable (config : FailoverClientConfig) (events : List (Event A U))
    :
    (events.foldl step (new config [])).Histories :=
  kept_hasHistory.run (fun _ he => absurd he List.not_mem_nil) events

omit [DecidableEq A] in
private theorem lastFailure_of_failed {e : EndpointInfo A} (h : HasHistory config e)
    (hfail : e.health = .failed) : e.lastFailure.isSome := by
  obtain ⟨events, hevs⟩ := h
  rw [← hevs] at hfail ⊢
  clear hevs
  generalize e.address = address at hfail ⊢
  induction events using List.reverseRecOn with
  | nil => cases hfail
  | append_singleton events event ih =>
    rw [after_concat] at hfail ⊢
    cases event with
    | attempt => exact ih hfail
    | success | nodeUpdated => cases hfail
    | failure => rfl
    | healthCheck now =>
      rw [EndpointInfo.step, EndpointInfo.healthCheck] at hfail ⊢
      split at hfail
      · cases hfail
      · next hstays => rw [if_neg hstays]; exact ih hfail

/-- However many endpoints have failed: once one of them answers again, a request is served after
a health check that comes later than its timeout. -/
theorem client_comes_back {T : Type} (config : FailoverClientConfig) (events : List (Event A U))
    (client : FailoverClient A) (hclient : client = events.foldl step (new config []))
    (now : A → Int) (partialCmp : PartialCmp A) (answers : Answers A T) (working : A)
    (hwork : ∃ e ∈ client.endpoints, e.address = working ∧
      ∀ f ∈ e.lastFailure, f + client.config.circuitBreakerTimeout < now working)
    (hanss : ∀ k, ∃ t, answers.respond k working = .response t)
    (hretries : 3 * (client.endpoints.length - 1) ≤ client.config.maxRetries) :
    Serves ((client.healthTick now).executeRequest partialCmp answers)
      (3 * (client.endpoints.length - 1) + 1) := by
  obtain ⟨e, he, rfl, hlate⟩ := hwork
  have hhl : (e.healthCheck client.config (now e.address)).health ≠ .failed := by
    intro hfail
    have hhistory : HasHistory client.config e := by
      subst hclient
      exact hasHistory_of_reachable config events e he
    unfold EndpointInfo.healthCheck at hfail
    split at hfail
    · cases hfail
    · next hstays =>
        obtain ⟨f, hf⟩ := Option.isSome_iff_exists.mp (lastFailure_of_failed hhistory hfail)
        have := hlate f hf
        simp only [EndpointInfo.recovers, hfail, hf, decide_true, Bool.true_and,
          decide_eq_true_eq] at hstays
        omega
  have hmem : e.healthCheck client.config (now e.address) ∈ (client.healthTick now).endpoints :=
    List.mem_map.mpr ⟨e, he, rfl⟩
  have haddr : (e.step client.config (.healthCheck (now e.address))).address = e.address :=
    e.address_step
  have hready : Ready e.address (client.healthTick now).endpoints :=
    ⟨kept_nodup.checked now (hclient ▸ kept_nodup.run List.nodup_nil events), _, hmem, haddr,
      hhl⟩
  have hrem := remaining_le ⟨_, hmem, haddr⟩
  rw [show (client.healthTick now).endpoints.length = _ from List.length_map _] at hrem
  have hserv : Serves ((client.healthTick now).executeRequest partialCmp answers) _ :=
    executeLoop_serves hanss hready (Nat.le_trans hrem hretries)
  exact ⟨hserv.returns, Nat.le_trans hserv.attempts_le (Nat.succ_le_succ hrem),
    hserv.contacts⟩

def failing : Event Nat Unit :=
  .request (fun _ _ => none) ⟨fun _ _ => .failed, fun _ => 0, fun _ => 0⟩

theorem client_comes_back_second :
    let client := (addTwo ++ [failing, failing]).foldl step (new ⟨3, 5, 60⟩ [])
    (∀ e ∈ client.endpoints, e.health = .failed) ∧
      Serves ((client.healthTick fun _ => 100).executeRequest (fun _ _ => none)
        ⟨fun _ address => if address = 2 then .response () else .failed, fun _ => 0,
          fun _ => 0⟩) 4 :=
  ⟨by decide, client_comes_back ⟨3, 5, 60⟩ (addTwo ++ [failing, failing]) _ rfl _ _ _ 2 (by decide)
    (fun _ => ⟨(), rfl⟩) (by decide)⟩

end FailoverClient

end

end Kaelix.Cluster.Ha
