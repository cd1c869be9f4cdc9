import Kaelix.Lib.HashMap

/-!
# Transactions of the broker bridge

`BrokerBridge` of `integration/broker_bridge.rs`: operations are collected under a transaction and
performed by `commit_transaction`, one after another, before it looks at their results.  The
storage is a map from sequence numbers to entries, and any call of `store_entry` may fail.

Nothing is taken back when an operation fails.
-/

namespace Kaelix.Storage.Integration

open Lib

abbrev Topic := String

/-- The errors of `StorageError` that the bridge returns, and those of the storage. -/
inductive StorageError where
  | shutdown
  | transactionNotFound
  | invalidTransactionState
  | transactionFailed
  | storage (reason : String)
  deriving DecidableEq

abbrev StorageResult := Except StorageError

structure StorageEntry where
  sequence : UInt64
  timestamp : UInt64
  payload : List UInt8
  checksum : UInt32
  deriving DecidableEq

/-- How far a transaction has come. -/
inductive TransactionStatus where
  | preparing
  | prepared
  | committed
  | aborted
  | failed
  deriving DecidableEq

/-- What a transaction does. -/
inductive TransactionOperation where
  | store (topic : Topic) (entry : StorageEntry)
  | delete (topic : Topic) (sequence : UInt64)
  | updateSubscription (topic : Topic) (subscriber : String) (cursor : UInt64)
  deriving DecidableEq

def stores : List TransactionOperation → List StorageEntry
  | [] => []
  | .store _ entry :: operations => entry :: stores operations
  | .delete _ _ :: operations => stores operations
  | .updateSubscription _ _ _ :: operations => stores operations

/-- `Transaction`.  Times are in milliseconds. -/
structure Transaction where
  id : UInt64
  status : TransactionStatus
  operations : List TransactionOperation
  createdAt : Nat
  timeout : Option Nat
  deriving DecidableEq

/-! ## The storage -/

/-- The storage below the bridge: the entries, and how often `store_entry` was called. -/
structure SegmentStorage where
  entries : HashMap UInt64 StorageEntry
  calls : Nat

/-- A pattern of failures: the error of each call of `store_entry`, if it fails. -/
abbrev Failures := Nat → Option StorageError

namespace SegmentStorage

/-- `store_entry`: a call that fails stores nothing. -/
def storeEntry (failures : Failures) (self : SegmentStorage) (entry : StorageEntry) :
    SegmentStorage × StorageResult Unit :=
  match failures self.calls with
  | some e => ({ self with calls := self.calls + 1 }, .error e)
  | none =>
    ({ entries := self.entries.insert entry.sequence entry
       calls := self.calls + 1 }, .ok ())

def retrieveEntry (self : SegmentStorage) (sequence : UInt64) : Option StorageEntry :=
  self.entries.lookup sequence

/-- The entry is the one that is read back under its sequence number. -/
def Readable (self : SegmentStorage) (entry : StorageEntry) : Prop :=
  self.retrieveEntry entry.sequence = some entry

end SegmentStorage

/-! ## The bridge -/

structure BridgeMetrics where
  transactionsProcessed : UInt64
  transactionsFailed : UInt64
  deriving DecidableEq

def BridgeMetrics.recordTransaction (self : BridgeMetrics) (success : Bool) : BridgeMetrics :=
  let self := { self with transactionsProcessed := self.transactionsProcessed + 1 }
  if !success then { self with transactionsFailed := self.transactionsFailed + 1 } else self

/-- The setting of `BridgeConfig` that transactions read. -/
structure BridgeConfig where
  transactionTimeout : Nat
  deriving DecidableEq

def BridgeConfig.default : BridgeConfig := { transactionTimeout := 30 * 1000 }

/-- The storage, and the transactions at work. -/
structure BrokerBridge where
  storage : SegmentStorage
  config : BridgeConfig
  transactions : HashMap UInt64 Transaction
  nextTransactionId : UInt64
  metrics : BridgeMetrics
  isShutdown : Bool

namespace BrokerBridge

def new (storage : SegmentStorage) (config : BridgeConfig) : BrokerBridge :=
  { storage, config
    transactions := ∅
    nextTransactionId := 1
    metrics := { transactionsProcessed := 0, transactionsFailed := 0 }
    isShutdown := false }

def beginTransaction (now : Nat) (self : BrokerBridge) : BrokerBridge × StorageResult UInt64 :=
  if self.isShutdown then (self, .error .shutdown)
  else
    let transactionId := self.nextTransactionId
    let transaction : Transaction :=
      { id := transactionId
        status := .preparing
        operations := []
        createdAt := now
        timeout := some self.config.transactionTimeout }
    ({ self with
        nextTransactionId := self.nextTransactionId + 1
        transactions := self.transactions.insert transactionId transaction },
      .ok transactionId)

def addToTransaction (self : BrokerBridge) (transactionId : UInt64)
    (operation : TransactionOperation) : BrokerBridge × StorageResult Unit :=
  match self.transactions.lookup transactionId with
  | none => (self, .error .transactionNotFound)
  | some transaction =>
    if transaction.status ≠ .preparing then (self, .error .invalidTransactionState)
    else
      let transaction := { transaction with operations := transaction.operations ++ [operation] }
      ({ self with
          transactions := self.transactions.insert transactionId transaction }, .ok ())

def setStatus (self : BrokerBridge) (transactionId : UInt64) (status : TransactionStatus) :
    BrokerBridge :=
  match self.transactions.lookup transactionId with
  | none => self
  | some transaction =>
    { self with
      transactions :=
        AList.insert transactionId { transaction with status := status } self.transactions }

section

variable (failures : Failures)

/-- One turn of the loop of `commit_transaction`.  Only a store reaches the storage. -/
def executeOperation (storage : SegmentStorage) :
    TransactionOperation → SegmentStorage × StorageResult Unit
  | .store _topic entry => storage.storeEntry failures entry
  | .delete _topic _sequence => (storage, .ok ())
  | .updateSubscription _topic _subscriber _cursor => (storage, .ok ())

/-- All operations in order. -/
def executeOperations (failures : Failures) :
    SegmentStorage → List TransactionOperation → SegmentStorage × List (StorageResult Unit)
  | storage, [] => (storage, [])
  | storage, operation :: operations =>
    let (storage, result) := executeOperation failures storage operation
    let (storage, results) := executeOperations failures storage operations
    (storage, result :: results)

variable (self : BrokerBridge)

/-- Executes the operations and drops the transaction. -/
def commitTransaction (transactionId : UInt64) : BrokerBridge × StorageResult Unit :=
  match self.transactions.lookup transactionId with
  | none => (self, .error .transactionNotFound)
  | some transaction =>
    let self := self.setStatus transactionId .prepared
    let (storage, results) := executeOperations failures self.storage transaction.operations
    let self := { self with storage := storage }
    let success := results.all Except.isOk
    let self := self.setStatus transactionId (if success then .committed else .failed)
    let self := { self with metrics := self.metrics.recordTransaction success }
    let self := { self with transactions := self.transactions.erase transactionId }
    (self, if success then .ok () else .error .transactionFailed)

/-- `abort_transaction`: the transaction leaves the table, so that its new status is seen by no
later call. -/
def abortTransaction (transactionId : UInt64) : BrokerBridge × StorageResult Unit :=
  match self.transactions.lookup transactionId with
  | none => (self, .error .transactionNotFound)
  | some _transaction =>
    let self := self.setStatus transactionId .aborted
    let self := { self with transactions := self.transactions.erase transactionId }
    ({ self with metrics := self.metrics.recordTransaction false }, .ok ())

/-- A transaction that `shutdown` finds in preparation or prepared is aborted. -/
def abortActive (transaction : Transaction) : Transaction :=
  if transaction.status = .preparing ∨ transaction.status = .prepared then
    { transaction with status := .aborted }
  else transaction

/-- `shutdown`: the transactions stay in the table. -/
def shutdown : BrokerBridge × StorageResult Unit :=
  ({ self with
      isShutdown := true
      transactions := self.transactions.mapValues abortActive }, .ok ())

/-! ## Collecting operations -/

def addOperations (self : BrokerBridge) (transactionId : UInt64) :
    List TransactionOperation → BrokerBridge
  | [] => self
  | operation :: operations =>
    (self.addToTransaction transactionId operation).1.addOperations transactionId operations

variable {transaction : Transaction} {transactionId : UInt64}

private theorem addToTransaction_of_preparing {self : BrokerBridge}
    (hget : self.transactions.lookup transactionId = some transaction)
    (hstat : transaction.status = .preparing) (operation : TransactionOperation) :
    self.addToTransaction transactionId operation =
      ({ self with
          transactions := AList.insert transactionId
            { transaction with operations := transaction.operations ++ [operation] }
            self.transactions }, .ok ()) := by
  simp only [addToTransaction, hget, hstat, ne_eq, not_true_eq_false, if_false]

theorem lookup_addOperations (operations : List TransactionOperation) {self : BrokerBridge}
    (hget : self.transactions.lookup transactionId = some transaction)
    (hstat : transaction.status = .preparing) :
    (self.addOperations transactionId operations).transactions.lookup transactionId =
        some { transaction with operations := transaction.operations ++ operations } ∧
      (self.addOperations transactionId operations).storage = self.storage := by
  induction operations generalizing self transaction with
  | nil => exact ⟨by rw [List.append_nil]; exact hget, rfl⟩
  | cons operation operations ih =>
    have hadd := addToTransaction_of_preparing hget hstat operation
    have hnext : AList.lookup transactionId
        (self.addToTransaction transactionId operation).1.transactions =
          some { transaction with operations := transaction.operations ++ [operation] } := by
      rw [hadd]
      exact AList.lookup_insert _
    obtain ⟨hfound, hstorage⟩ := ih hnext hstat
    rw [List.append_assoc] at hfound
    exact ⟨hfound, hstorage.trans (by rw [hadd])⟩

/-! ## What a commit does -/

/-- The entries whose store does not fail, if the first call has this number. -/
def accepted (failures : Failures) : Nat → List StorageEntry → List StorageEntry
  | _, [] => []
  | call, entry :: entries =>
    if (failures call).isNone then entry :: accepted failures (call + 1) entries
    else accepted failures (call + 1) entries

theorem accepted_subset (call : Nat) (entries : List StorageEntry) :
    accepted failures call entries ⊆ entries := by
  induction entries generalizing call with
  | nil => exact List.Subset.refl _
  | cons entry entries ih =>
    rw [accepted]
    split
    · exact List.cons_subset_cons entry (ih (call + 1))
    · exact List.subset_cons_of_subset entry (ih (call + 1))

theorem forall_call_cons_iff {P : Option StorageError → Prop} (failures : Failures)
    (call : Nat) (entry : StorageEntry) (entries : List StorageEntry) :
    (∀ i < (entry :: entries).length, P (failures (call + i))) ↔
      P (failures call) ∧ ∀ i < entries.length, P (failures (call + 1 + i)) := by
  rw [List.length_cons, Nat.forall_lt_succ_left]
  simp only [Nat.add_zero, Nat.add_assoc, Nat.add_comm 1]

theorem accepted_of_forall_none {failures : Failures} {call : Nat} {entries : List StorageEntry}
    (h : ∀ i < entries.length, failures (call + i) = none) :
    accepted failures call entries = entries := by
  induction entries generalizing call with
  | nil => rfl
  | cons entry entries ih =>
    obtain ⟨hfirst, hrest⟩ :=
      (forall_call_cons_iff (P := (· = none)) failures call entry entries).mp h
    rw [accepted, hfirst, Option.isNone_none, if_pos rfl, ih hrest]

theorem accepted_eq_nil_iff (call : Nat) (entries : List StorageEntry) :
    accepted failures call entries = [] ↔
      ∀ i < entries.length, failures (call + i) ≠ none := by
  induction entries generalizing call with
  | nil => simp [accepted]
  | cons entry entries ih =>
    rw [forall_call_cons_iff (P := (· ≠ none)), ← ih, accepted]
    cases hfirst : failures call with
    | _ => simp

theorem executeOperations_spec (operations : List TransactionOperation) (storage : SegmentStorage) :
    (executeOperations failures storage operations).1.entries =
        HashMap.writeAll StorageEntry.sequence
          (accepted failures storage.calls (stores operations)) storage.entries ∧
      ((executeOperations failures storage operations).2.all Except.isOk = true ↔
        ∀ i < (stores operations).length, failures (storage.calls + i) = none) := by
  induction operations generalizing storage with
  | nil => exact ⟨rfl, by simp [executeOperations, stores]⟩
  | cons operation operations ih =>
    cases operation with
    | store topic entry =>
      rw [stores, forall_call_cons_iff (P := (· = none)), accepted]
      simp only [executeOperations, executeOperation, SegmentStorage.storeEntry, List.all_cons]
      cases hfirst : failures storage.calls with
      | none =>
        obtain ⟨hes, hress⟩ := ih
          ⟨storage.entries.insert entry.sequence entry, storage.calls + 1⟩
        exact ⟨hes, by simpa [Except.isOk, Except.toBool] using hress⟩
      | some =>
        obtain ⟨hes, -⟩ := ih ⟨storage.entries, storage.calls + 1⟩
        exact ⟨hes, by simp [Except.isOk, Except.toBool]⟩
    | _ => exact ih storage

theorem setStatus_storage (transactionId : UInt64) (status : TransactionStatus) :
    (self.setStatus transactionId status).storage = self.storage := by
  unfold setStatus
  split <;> rfl

theorem commitTransaction_of_lookup {self : BrokerBridge}
    (hget : self.transactions.lookup transactionId = some transaction) :
    (self.commitTransaction failures transactionId).1.storage =
        (executeOperations failures self.storage transaction.operations).1 ∧
      (self.commitTransaction failures transactionId).2 =
        if (executeOperations failures self.storage transaction.operations).2.all Except.isOk
        then .ok () else .error .transactionFailed := by
  simp only [commitTransaction, hget, setStatus_storage, and_self]

end

/-- If the answer is fine every entry is readable, and if it is an error none is. -/
structure AllOrNothing (result : StorageResult Unit) (storage : SegmentStorage)
    (entries : List StorageEntry) : Prop where
  ok : result = .ok () → ∀ entry ∈ entries, storage.Readable entry
  err : ∀ e, result = .error e → ∀ entry ∈ entries, ¬ storage.Readable entry

private theorem allOrNothing_ok_iff (storage : SegmentStorage) (entries : List StorageEntry) :
    AllOrNothing (.ok ()) storage entries ↔ ∀ entry ∈ entries, storage.Readable entry :=
  ⟨fun h => h.ok rfl, fun h => ⟨fun _ => h, by intro _ herr; cases herr⟩⟩

private theorem allOrNothing_error_iff (e : StorageError) (storage : SegmentStorage)
    (entries : List StorageEntry) :
    AllOrNothing (.error e) storage entries ↔ ∀ entry ∈ entries, ¬ storage.Readable entry :=
  ⟨fun h => h.err e rfl, fun h => ⟨(by intro hok; cases hok), fun _ _ => h⟩⟩

/-- A commit is all-or-nothing iff no store fails and no two entries of the transaction
share a sequence number, or every store fails and no entry was readable before. -/
theorem commit_allOrNothing_iff (failures : Failures) {self : BrokerBridge}
    {transactionId : UInt64} {transaction : Transaction}
    (hget : self.transactions.lookup transactionId = some transaction) :
    AllOrNothing (self.commitTransaction failures transactionId).2
        (self.commitTransaction failures transactionId).1.storage
        (stores transaction.operations) ↔
      ((∀ i < (stores transaction.operations).length, failures (self.storage.calls + i) = none) ∧
        ∀ entry ∈ stores transaction.operations, ∀ entry' ∈ stores transaction.operations,
          entry.sequence = entry'.sequence → entry = entry') ∨
      ((∀ i < (stores transaction.operations).length, failures (self.storage.calls + i) ≠ none) ∧
        ∀ entry ∈ stores transaction.operations, ¬ self.storage.Readable entry) := by
  obtain ⟨hstorage, hres⟩ := commitTransaction_of_lookup failures hget
  obtain ⟨hes, hall⟩ := executeOperations_spec failures transaction.operations self.storage
  set entries := stores transaction.operations
  rw [hstorage, hres]
  by_cases hok : ∀ i < entries.length, failures (self.storage.calls + i) = none
  · rw [if_pos (hall.mpr hok), allOrNothing_ok_iff]
    have hreadable := HashMap.forall_holds_writeAll_iff StorageEntry.sequence entries
      self.storage.entries
    rw [accepted_of_forall_none hok] at hes
    rw [← hes] at hreadable
    constructor
    · exact fun h => .inl ⟨hok, hreadable.mp h⟩
    · rintro (⟨-, hdist⟩ | ⟨hfail, -⟩)
      · exact hreadable.mpr hdist
      · -- No store fails and every store fails: there is none.
        intro entry hent
        have hpos : 0 < entries.length := List.length_pos_of_mem hent
        exact absurd (hok 0 hpos) (hfail 0 hpos)
  · rw [if_neg (hall.not.mpr hok), allOrNothing_error_iff]
    have hnone := HashMap.forall_not_holds_writeAll_iff StorageEntry.sequence
      (accepted_subset failures self.storage.calls entries) self.storage.entries
    rw [← hes, accepted_eq_nil_iff] at hnone
    constructor
    · exact fun h => .inr (hnone.mp h)
    · rintro (⟨hok', -⟩ | hfail)
      · exact absurd hok' hok
      · exact hnone.mpr hfail

def numbered (sequence : UInt64) : StorageEntry :=
  { sequence, timestamp := 0, payload := [], checksum := 0 }

/-- The first transaction of a new bridge over an empty storage, with two stores. -/
def twoStores : BrokerBridge :=
  ((new { entries := ∅, calls := 0 } .default).beginTransaction 0).1.addOperations 1
    [.store "orders" (numbered 1), .store "orders" (numbered 2)]

/-- Both entries can be read if no store fails. -/
theorem commit_allOrNothing_twoStores :
    AllOrNothing (twoStores.commitTransaction (fun _ => none) 1).2
      (twoStores.commitTransaction (fun _ => none) 1).1.storage
      [numbered 1, numbered 2] := by
  have hbegun : AList.lookup 1
      ((new { entries := ∅, calls := 0 } .default).beginTransaction 0).1.transactions =
        some { id := 1
               status := .preparing
               operations := []
               createdAt := 0
               timeout := some 30000 } := by rfl
  obtain ⟨hget, -⟩ := lookup_addOperations
    [.store "orders" (numbered 1), .store "orders" (numbered 2)] hbegun rfl
  exact (commit_allOrNothing_iff (fun _ => none) hget).mpr (.inl ⟨fun _ _ => rfl, by decide⟩)

/-- If the second store fails the commit is an error, and the first entry can be read. -/
theorem commit_not_allOrNothing :
    ∃ failures : Failures,
      (twoStores.commitTransaction failures 1).2 = .error .transactionFailed ∧
        (twoStores.commitTransaction failures 1).1.storage.Readable (numbered 1) ∧
        ¬ AllOrNothing (twoStores.commitTransaction failures 1).2
          (twoStores.commitTransaction failures 1).1.storage [numbered 1, numbered 2] := by
  let failures : Failures := fun call => if call = 1 then some (.storage "no space") else none
  have herr : (twoStores.commitTransaction failures 1).2 = .error .transactionFailed := by rfl
  have hread : (twoStores.commitTransaction failures 1).1.storage.Readable (numbered 1) := by
    rfl
  refine ⟨failures, herr, hread, fun h => ?_⟩
  exact h.err _ herr (numbered 1) (List.mem_cons_self ..) hread

end BrokerBridge

end Kaelix.Storage.Integration
