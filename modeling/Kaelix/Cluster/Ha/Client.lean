import Mathlib.Algebra.Order.Ring.Int

/-!
# The failover client

`FailoverClient` of `ha/client.rs`: the endpoints with their health, the requests that go to one
endpoint after another, and the two tasks that change the health in the background, for changes of
the topology and for the health checks.

An address is anything with an equality.  How the scores of two endpoints compare is arbitrary,
and so are the answers to a request and the readings of the clock.  The calls are made one after
another; the delay between two attempts is left out, and the counters do not overflow.
-/

namespace Kaelix.Cluster.Ha

/-- What a request can fail with. -/
inductive HaError where
  | noHealthyEndpoints
  | endpointAlreadyExists
  | endpointNotFound
  | allEndpointsFailed
  deriving DecidableEq

/-- `FailoverClientConfig`, with what the client reads and the threshold, which it does not. -/
structure FailoverClientConfig where
  maxRetries : Nat
  circuitBreakerThreshold : Nat
  circuitBreakerTimeout : Nat
  deriving DecidableEq

/-- What the client thinks of an endpoint. -/
inductive EndpointHealth where
  | healthy
  | degraded
  | failed
  | recovering
  deriving DecidableEq

/-- An endpoint and its health. -/
structure EndpointInfo (A : Type) where
  address : A
  health : EndpointHealth
  consecutiveFailures : Nat
  lastSuccess : Option Int
  lastFailure : Option Int
  responseTimes : List Nat
  totalRequests : Nat
  successfulRequests : Nat
  deriving DecidableEq

namespace EndpointInfo

variable {A : Type}

def new (address : A) : EndpointInfo A :=
  { address
    health := .healthy
    consecutiveFailures := 0
    lastSuccess := none
    lastFailure := none
    responseTimes := []
    totalRequests := 0
    successfulRequests := 0 }

variable (self : EndpointInfo A)

def recordSuccess (responseTime : Nat) (now : Int) : EndpointInfo A :=
  { self with
    health := .healthy
    consecutiveFailures := 0
    lastSuccess := some now
    successfulRequests := self.successfulRequests + 1
    responseTimes :=
      (if self.responseTimes.length ≥ 100 then self.responseTimes.tail else self.responseTimes) ++
        [responseTime] }

/-- Two failures in a row degrade the endpoint, more fail it. -/
def recordFailure (now : Int) : EndpointInfo A :=
  let failures := self.consecutiveFailures + 1
  { self with
    consecutiveFailures := failures
    lastFailure := some now
    health := if 1 ≤ failures ∧ failures ≤ 2 then .degraded else .failed }

/-- Requests may go to the endpoint. -/
def isHealthy : Bool :=
  match self.health with
  | .healthy | .recovering => true
  | .degraded | .failed => false

def recordAttempt : EndpointInfo A :=
  { self with totalRequests := self.totalRequests + 1 }

def markRecovering : EndpointInfo A := { self with health := .recovering }

variable (config : FailoverClientConfig)

/-- The endpoint has failed, and longer ago than the timeout. -/
def recovers (self : EndpointInfo A) (now : Int) : Bool :=
  self.health = .failed &&
    match self.lastFailure with
    | some lastFailure => (now - lastFailure).toNat > config.circuitBreakerTimeout
    | none => false

/-- A failed endpoint may recover after a while. -/
def healthCheck (self : EndpointInfo A) (now : Int) : EndpointInfo A :=
  if self.recovers config now then self.markRecovering else self

end EndpointInfo

/-- What can happen to an endpoint. -/
inductive EndpointEvent where
  | attempt
  | success (responseTime : Nat) (now : Int)
  | failure (now : Int)
  | nodeUpdated
  | healthCheck (now : Int)
  deriving DecidableEq

def EndpointInfo.step {A : Type} (config : FailoverClientConfig) (e : EndpointInfo A) :
    EndpointEvent → EndpointInfo A
  | .attempt => e.recordAttempt
  | .success responseTime now => e.recordSuccess responseTime now
  | .failure now => e.recordFailure now
  | .nodeUpdated => e.markRecovering
  | .healthCheck now => e.healthCheck config now

structure FailoverClientMetrics where
  totalRequests : Nat
  successfulRequests : Nat
  failedRequests : Nat
  totalRetries : Nat
  deriving DecidableEq

/-- The client with its endpoints. -/
structure FailoverClient (A : Type) where
  config : FailoverClientConfig
  endpoints : List (EndpointInfo A)
  metrics : FailoverClientMetrics
  deriving DecidableEq

structure RequestResult (A T : Type) where
  response : T
  endpoint : A
  retries : Nat
  deriving DecidableEq

/-- What one attempt comes to. -/
inductive Answer (T : Type) where
  | response (t : T)
  | failed
  | timedOut
  deriving DecidableEq

/-- What the endpoints answer to the attempts of a request, how long each takes, and what the
clock shows when it is recorded. -/
structure Answers (A T : Type) where
  respond : Nat → A → Answer T
  duration : Nat → Nat
  now : Nat → Int

/-- What `execute_request` does: what it leaves, what it returns, and the addresses that it
contacts, each with the endpoints at that moment. -/
structure Execution (A T : Type) where
  client : FailoverClient A
  outcome : Except HaError (RequestResult A T)
  contacts : List (A × List (EndpointInfo A))

/-- `Iterator::min_by`. -/
def minBy {α : Type} (compare : α → α → Ordering) : List α → Option α
  | [] => none
  | x :: xs => some (xs.foldl (fun x y => if compare x y = .gt then y else x) x)

def updateEndpoint {A : Type} [DecidableEq A] (address : A)
    (f : EndpointInfo A → EndpointInfo A) : List (EndpointInfo A) → List (EndpointInfo A)
  | [] => []
  | e :: endpoints =>
    if e.address = address then f e :: endpoints else e :: updateEndpoint address f endpoints

/-- A change of the cluster the client hears of. -/
inductive TopologyChange (A : Type) where
  | nodeAdded (address : A)
  | nodeRemoved (address : A)
  | nodeUpdated (address : A)
  deriving DecidableEq

namespace FailoverClient

variable {A T : Type} [DecidableEq A]

abbrev PartialCmp (A : Type) := EndpointInfo A → EndpointInfo A → Option Ordering

def new (config : FailoverClientConfig) (initialEndpoints : List A) : FailoverClient A :=
  { config
    endpoints := initialEndpoints.map EndpointInfo.new
    metrics := ⟨0, 0, 0, 0⟩ }

/-- The best healthy endpoint, else one that recovers or is degraded. -/
def selectEndpoint (partialCmp : PartialCmp A) (endpoints : List (EndpointInfo A)) :
    Except HaError A :=
  match minBy (fun a b => (partialCmp a b).getD .eq) (endpoints.filter (·.isHealthy)) with
  | some bestEndpoint => .ok bestEndpoint.address
  | none =>
    match endpoints.filter (·.health = .recovering) with
    | endpoint :: _ => .ok endpoint.address
    | [] =>
      match endpoints.filter (·.health = .degraded) with
      | endpoint :: _ => .ok endpoint.address
      | [] => .error .noHealthyEndpoints

/-- The loop of `execute_request`; `left` is what `retries` lacks to `max_retries`. -/
def executeLoop (partialCmp : PartialCmp A) (answers : Answers A T) :
    (left retries : Nat) → FailoverClient A → Execution A T
  | left, retries, self =>
    match selectEndpoint partialCmp self.endpoints with
    | .error e => { client := self, outcome := .error e, contacts := [] }
    | .ok endpoint =>
      let contact := (endpoint, self.endpoints)
      let attempted := updateEndpoint endpoint (·.recordAttempt) self.endpoints
      match answers.respond retries endpoint with
      | .response response =>
        { client :=
            { self with
              endpoints := updateEndpoint endpoint
                (·.recordSuccess (answers.duration retries) (answers.now retries)) attempted
              metrics := { self.metrics with
                totalRequests := self.metrics.totalRequests + 1
                successfulRequests := self.metrics.successfulRequests + 1
                totalRetries := self.metrics.totalRetries + retries } }
          outcome := .ok { response, endpoint, retries }
          contacts := [contact] }
      | .failed | .timedOut =>
        let self := { self with
          endpoints := updateEndpoint endpoint (·.recordFailure (answers.now retries)) attempted }
        match left with
        | 0 =>
          { client := { self with
              metrics := { self.metrics with
                totalRequests := self.metrics.totalRequests + 1
                failedRequests := self.metrics.failedRequests + 1
                totalRetries := self.metrics.totalRetries + retries } }
            outcome := .error .allEndpointsFailed
            contacts := [contact] }
        | left + 1 =>
          let execution := executeLoop partialCmp answers left (retries + 1) self
          { execution with contacts := contact :: execution.contacts }

/-- Attempts until one succeeds. -/
def executeRequest (partialCmp : PartialCmp A) (answers : Answers A T) (self : FailoverClient A) :
    Execution A T :=
  executeLoop partialCmp answers self.config.maxRetries 0 self

def addEndpoint (address : A) (self : FailoverClient A) : Except HaError Unit × FailoverClient A :=
  if self.endpoints.any (·.address = address) then (.error .endpointAlreadyExists, self)
  else (.ok (), { self with endpoints := self.endpoints ++ [.new address] })

def removeEndpoint (address : A) (self : FailoverClient A) :
    Except HaError Unit × FailoverClient A :=
  let endpoints := self.endpoints.filter (·.address ≠ address)
  if endpoints.length = self.endpoints.length then
    (.error .endpointNotFound, { self with endpoints })
  else (.ok (), { self with endpoints })

variable (self : FailoverClient A)

def applyTopologyChange : TopologyChange A → FailoverClient A
  | .nodeAdded address =>
    if self.endpoints.any (·.address = address) then self
    else { self with endpoints := self.endpoints ++ [.new address] }
  | .nodeRemoved address =>
    { self with endpoints := self.endpoints.filter (·.address ≠ address) }
  | .nodeUpdated address =>
    { self with endpoints := updateEndpoint address (·.markRecovering) self.endpoints }

/-- The task of `start_health_monitoring`, at a tick; `now` is the clock at each endpoint. -/
def healthTick (now : A → Int) : FailoverClient A :=
  { self with endpoints := self.endpoints.map fun e => e.healthCheck self.config (now e.address) }

/-- What can happen to the client. -/
inductive Event (A T : Type) where
  | addEndpoint (address : A)
  | removeEndpoint (address : A)
  | topologyChange (change : TopologyChange A)
  | healthTick (now : A → Int)
  | request (partialCmp : PartialCmp A) (answers : Answers A T)

def step : Event A T → FailoverClient A
  | .addEndpoint address => (self.addEndpoint address).2
  | .removeEndpoint address => (self.removeEndpoint address).2
  | .topologyChange change => self.applyTopologyChange change
  | .healthTick now => self.healthTick now
  | .request partialCmp answers => (self.executeRequest partialCmp answers).client

end FailoverClient

end Kaelix.Cluster.Ha
