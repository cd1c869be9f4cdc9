import Kaelix.Core.Multiplexing.Registry
import Kaelix.Lib.Overflow

/-!
# Credits of a stream

`StreamCreditState` counts the credits of one stream.  `try_consume` takes them first and
puts them back if there were too few.  `refill_credits` gives credits for the time since the
last refill, but not over `DEFAULT_INITIAL_CREDITS`; `add_credits` has no such limit.

The calls are made one after another.  Instants are in nanoseconds.  The atomic operations
wrap around; the operators panic on overflow in a build with overflow checks.
-/

namespace Kaelix.Core.Multiplexing

open Lib

def defaultInitialCredits : Int32 := 1000

/-- How hard a stream is pressed. -/
inductive BackpressureLevel where
  | none | light | moderate | heavy | critical
  deriving DecidableEq

structure BackpressureConfig where
  initialCredits : Int32
  backpressureThreshold : Int32
  maxRefillRate : UInt64
  propagationEnabled : Bool
  deriving DecidableEq

def BackpressureConfig.adaptive : BackpressureConfig :=
  { initialCredits := 2000, backpressureThreshold := 200, maxRefillRate := 20000,
    propagationEnabled := true }

def BackpressureConfig.conservative : BackpressureConfig :=
  { initialCredits := 500, backpressureThreshold := 50, maxRefillRate := 5000,
    propagationEnabled := false }

/-- The credits of a stream. -/
structure StreamCreditState where
  credits : Int32
  lastRefill : Nat
  pressureLevel : BackpressureLevel
  totalConsumed : UInt64
  totalRefilled : UInt64
  deriving DecidableEq

def refillAmount (overflowChecks : Bool) (maxRefillRate : UInt64) (elapsed : Nat) :
    Except Panic Int32 := do
  -- `elapsed.as_millis() as u64`
  let product ← mulU64 overflowChecks (UInt64.ofNat (elapsed / 1000000)) maxRefillRate
  return u64AsI32 (product / 1000)

namespace StreamCreditState

def new (initialCredits : Int32) (now : Nat) : StreamCreditState :=
  { credits := initialCredits, lastRefill := now, pressureLevel := .none, totalConsumed := 0,
    totalRefilled := 0 }

variable (overflowChecks : Bool)

variable (s : StreamCreditState)

/-- Takes credits, if there are enough. -/
def tryConsume (amount : Int32) : Except (Failure MultiplexerError) Int32 × StreamCreditState :=
  let current := s.credits
  let taken := { s with credits := s.credits - amount }
  if current < amount then
    -- too few credits: put them back
    (.error (.error (.backpressure
        s!"Insufficient credits: {current} available, {amount} required")),
      { taken with credits := taken.credits + amount })
  else
    let counted := { taken with totalConsumed := s.totalConsumed + i32AsU64 amount }
    match subI32 overflowChecks current amount with
    | .ok left => (.ok left, counted)
    | .error p => (.error (.panic p), counted)

def topUp (amount : Int32) : Except Panic Unit × StreamCreditState :=
  match addI32 overflowChecks s.credits amount with
  | .error p => (.error p, s)
  | .ok sum =>
    let newCredits := min sum defaultInitialCredits
    match subI32 overflowChecks newCredits s.credits with
    | .error p => (.error p, s)
    | .ok actualRefill =>
      if actualRefill > 0 then
        (.ok (), { s with
          credits := newCredits
          totalRefilled := s.totalRefilled + i32AsU64 actualRefill })
      else (.ok (), s)

/-- Adds what is due since the last refill. -/
def refillCredits (maxRefillRate : UInt64) (s : StreamCreditState) (now : Nat) :
    Except Panic Unit × StreamCreditState :=
  let swapped := { s with lastRefill := now }
  match refillAmount overflowChecks maxRefillRate (now - s.lastRefill) with
  | .error p => (.error p, swapped)
  | .ok amount => if amount > 0 then topUp overflowChecks swapped amount else (.ok (), swapped)

def updatePressureLevel (threshold : Int32) : BackpressureLevel × StreamCreditState :=
  let level : BackpressureLevel :=
    if s.credits ≤ 0 then .critical
    else if s.credits < threshold / 4 then .heavy
    else if s.credits < threshold / 2 then .moderate
    else if s.credits < threshold then .light
    else .none
  (level, { s with pressureLevel := level })

/-- What `BackpressureManager::add_credits` does to the state of the stream; the threshold is
that of the manager. -/
def addCredits (threshold amount : Int32) : StreamCreditState :=
  ({ s with
    credits := s.credits + amount
    totalRefilled := s.totalRefilled + i32AsU64 amount }.updatePressureLevel threshold).2

end StreamCreditState

end Kaelix.Core.Multiplexing
