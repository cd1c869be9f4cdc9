import Kaelix.Storage.Integration.BrokerBridge
import Kaelix.Lib.History

/-!
# Aborted transactions

What the calls do to transactions is a sequence of acts: a transaction begins, gets a status, or
one of its entries is handed to the storage.

`abort_transaction` takes the transaction out of the table.  `shutdown` leaves it there, and
`commit_transaction` does not look at the status: it stores the entries of an aborted transaction
and takes it for a committed one.
-/

namespace Kaelix.Storage.Integration

open Lib

/-- The calls that touch transactions. -/
inductive TransactionCall where
  | beginTransaction (now : Nat)
  | addToTransaction (transactionId : UInt64) (operation : TransactionOperation)
  | commitTransaction (transactionId : UInt64)
  | abortTransaction (transactionId : UInt64)
  | shutdown
  deriving DecidableEq

/-- What a call does to a transaction or the storage. -/
inductive Act where
  | begun (transactionId : UInt64)
  | changed (transactionId : UInt64) (status : TransactionStatus)
  | stored (transactionId : UInt64) (entry : StorageEntry)
  deriving DecidableEq

namespace Act

/-- The act stores an entry of the transaction, or gives it a status other than aborted. -/
def Affects (transactionId : UInt64) : Act → Prop
  | .begun _ => False
  | .changed id status => id = transactionId ∧ status ≠ .aborted
  | .stored id _ => id = transactionId

def storageAfter (failures : Failures) (storage : SegmentStorage) : Act → SegmentStorage
  | .stored _ entry => (storage.storeEntry failures entry).1
  | _ => storage

end Act

/-- The transaction has been aborted, and its number not given out again since. -/
def AbortedIn (acts : List Act) (transactionId : UInt64) : Prop :=
  Since acts (· = .changed transactionId .aborted) (· ≠ .begun transactionId)

/-- After the acts before it, the act affects no aborted transaction. -/
def Harmless (before : List Act) (act : Act) : Prop :=
  ∀ transactionId, AbortedIn before transactionId → ¬ act.Affects transactionId

/-- None of the acts that follow on others affects a transaction that was aborted before. -/
def NoLaterEffect (before acts : List Act) : Prop :=
  EachStep (fun before act => before ++ [act]) Harmless before acts

namespace BrokerBridge

section

variable (failures : Failures)

variable (self : BrokerBridge)

def call : TransactionCall → BrokerBridge
  | .beginTransaction now => (self.beginTransaction now).1
  | .addToTransaction transactionId operation => (self.addToTransaction transactionId operation).1
  | .commitTransaction transactionId => (self.commitTransaction failures transactionId).1
  | .abortTransaction transactionId => (self.abortTransaction transactionId).1
  | .shutdown => self.shutdown.1

def commitActs (transactionId : UInt64) (operations : List TransactionOperation)
    (success : Bool) : List Act :=
  .changed transactionId .prepared :: ((stores operations).map (.stored transactionId) ++
    [.changed transactionId (if success then .committed else .failed)])

def statusOf (transactionId : UInt64) : Option TransactionStatus :=
  (self.transactions.lookup transactionId).map Transaction.status

def active : List UInt64 :=
  (self.transactions.entries.filter fun e =>
    e.2.status = .preparing ∨ e.2.status = .prepared).map Sigma.fst

def acts : TransactionCall → List Act
  | .beginTransaction _ => if self.isShutdown then [] else [.begun self.nextTransactionId]
  | .addToTransaction _ _ => []
  | .commitTransaction transactionId =>
    match self.transactions.lookup transactionId with
    | none => []
    | some transaction =>
      commitActs transactionId transaction.operations
        ((executeOperations failures self.storage transaction.operations).2.all Except.isOk)
  | .abortTransaction transactionId =>
    match self.transactions.lookup transactionId with
    | none => []
    | some _ => [.changed transactionId .aborted]
  | .shutdown => self.active.map (.changed · .aborted)

/-- The acts of all calls. -/
def trace (self : BrokerBridge) : List TransactionCall → List Act
  | [] => []
  | call :: calls => self.acts failures call ++ (self.call failures call).trace calls

end

variable {failures : Failures} {self : BrokerBridge}

/-! ## The acts account for the state -/

theorem executeOperations_fst (operations : List TransactionOperation) (id : UInt64)
    (storage : SegmentStorage) :
    (executeOperations failures storage operations).1 =
      ((stores operations).map (Act.stored id)).foldl (Act.storageAfter failures) storage := by
  induction operations generalizing storage with
  | nil => rfl
  | cons operation operations ih =>
    cases operation with
    | store topic entry => exact ih (storage.storeEntry failures entry).1
    | _ => exact ih storage

theorem statusOf_begin (now : Nat) (id : UInt64) :
    (self.beginTransaction now).1.statusOf id =
      if self.isShutdown = false ∧ id = self.nextTransactionId then some .preparing
      else self.statusOf id := by
  unfold beginTransaction statusOf
  cases hshut : self.isShutdown with
  | true => simp
  | false =>
    simp only [Bool.false_eq_true, if_false, HashMap.lookup_insert_eq, true_and]
    split <;> rfl

section

variable (id id' : UInt64)

theorem statusOf_add (operation : TransactionOperation) :
    (self.addToTransaction id operation).1.statusOf id' = self.statusOf id' := by
  unfold addToTransaction statusOf
  cases hget : self.transactions.lookup id with
  | none => rfl
  | some =>
    simp only
    split
    · rfl
    · simp only [HashMap.lookup_insert_eq]
      split
      next h => rw [h, hget]; rfl
      next => rfl

theorem lookup_erase_setStatus (status : TransactionStatus) :
    ((self.setStatus id status).transactions.erase id).lookup id' =
      (self.transactions.erase id).lookup id' := by
  unfold setStatus
  split
  · rfl
  · simp only [HashMap.lookup_erase_eq, HashMap.lookup_insert_eq]
    split <;> rfl

private theorem statusOf_of_erase {after : BrokerBridge} {id id' : UInt64}
    (h : after.transactions.lookup id' =
      (self.transactions.erase id).lookup id') :
    after.statusOf id' = if id' = id then none else self.statusOf id' := by
  rw [statusOf, h, HashMap.lookup_erase_eq]
  split <;> rfl

theorem statusOf_commit :
    (self.commitTransaction failures id).1.statusOf id' =
      if id' = id then none else self.statusOf id' := by
  apply statusOf_of_erase
  unfold commitTransaction
  cases hget : self.transactions.lookup id with
  | none => rw [HashMap.erase_of_lookup_none hget]
  | some => simp only [lookup_erase_setStatus]

theorem statusOf_abort :
    (self.abortTransaction id).1.statusOf id' =
      if id' = id then none else self.statusOf id' := by
  apply statusOf_of_erase
  unfold abortTransaction
  cases hget : self.transactions.lookup id with
  | none => rw [HashMap.erase_of_lookup_none hget]
  | some => exact lookup_erase_setStatus id id' .aborted

end

theorem statusOf_shutdown (id : UInt64) :
    self.shutdown.1.statusOf id =
      (self.statusOf id).map fun s => if s = .preparing ∨ s = .prepared then .aborted else s := by
  rw [statusOf, shutdown, HashMap.lookup_mapValues, statusOf, Option.map_map, Option.map_map]
  congr 1
  funext transaction
  simp only [Function.comp, abortActive]
  split <;> rfl

theorem mem_active {id : UInt64} : id ∈ self.active ↔
    self.statusOf id = some .preparing ∨ self.statusOf id = some .prepared := by
  simp [active, statusOf, ← AList.mem_lookup_iff, and_or_left, exists_or]

variable {before acts : List Act}

section

variable (c : TransactionCall)

theorem storage_call :
    (self.call failures c).storage =
      (self.acts failures c).foldl (Act.storageAfter failures) self.storage := by
  cases c with
  | beginTransaction =>
    simp only [call, acts, beginTransaction]
    split <;> rfl
  | addToTransaction =>
    simp only [call, acts, addToTransaction]
    split
    · rfl
    · split <;> rfl
  | commitTransaction id =>
    simp only [call, acts]
    cases hget : self.transactions.lookup id with
    | none => simp [commitTransaction, hget]
    | some =>
      rw [(commitTransaction_of_lookup failures hget).1, executeOperations_fst _ id]
      simp [commitActs, Act.storageAfter]
  | abortTransaction id =>
    simp only [call, acts, abortTransaction]
    cases self.transactions.lookup id with
    | none => rfl
    | some => exact setStatus_storage self id .aborted
  | shutdown =>
    show self.storage = (self.active.map (Act.changed · .aborted)).foldl _ self.storage
    rw [List.foldl_map]
    exact (List.foldl_fixed _).symm

/-! ## Aborted transactions -/

theorem abortedIn_append {id : UInt64} (hbegun : .begun id ∉ acts) :
    AbortedIn (before ++ acts) id ↔ .changed id .aborted ∈ acts ∨ AbortedIn before id := by
  have hq : ∀ act ∈ acts, act ≠ .begun id := fun act hact heq => hbegun (heq ▸ hact)
  rw [AbortedIn, since_append hq, AbortedIn]
  simp

/-- Transactions of the table are in preparation and not aborted, until the bridge is shut down;
then all of them are aborted. -/
def Sound (self : BrokerBridge) (before : List Act) : Prop :=
  ∀ id status, self.statusOf id = some status →
    status = (if self.isShutdown then .aborted else .preparing) ∧
      (AbortedIn before id ↔ self.isShutdown)

private theorem isShutdown_setStatus (id : UInt64) (status : TransactionStatus) :
    (self.setStatus id status).isShutdown = self.isShutdown := by
  unfold setStatus
  split <;> rfl

private theorem isShutdown_call :
    (self.call failures c).isShutdown = (self.isShutdown || decide (c = .shutdown)) := by
  cases c with
  | beginTransaction =>
    simp only [call, beginTransaction]
    split <;> simp
  | addToTransaction =>
    simp only [call, addToTransaction]
    split
    · simp
    · split <;> simp
  | commitTransaction =>
    simp only [call, commitTransaction]
    split <;> simp [isShutdown_setStatus]
  | abortTransaction =>
    simp only [call, abortTransaction]
    split <;> simp [isShutdown_setStatus]
  | shutdown => simp [call, shutdown]

end

variable {operations : List TransactionOperation} {success : Bool} {act : Act}

theorem mem_commitActs {id : UInt64} (h : act ∈ commitActs id operations success) :
    (∃ status, act = .changed id status ∧ status ≠ .aborted) ∨ ∃ entry, act = .stored id entry := by
  simp only [commitActs, List.mem_cons, List.mem_append, List.mem_map, List.not_mem_nil,
    or_false] at h
  rcases h with rfl | ⟨entry, -, rfl⟩ | rfl
  · exact .inl ⟨_, rfl, by decide⟩
  · exact .inr ⟨entry, rfl⟩
  · exact .inl ⟨_, rfl, by cases success <;> decide⟩

theorem abortedIn_append_commit {id id' : UInt64}
    (hacts : acts ⊆ commitActs id operations success) :
    AbortedIn (before ++ acts) id' ↔ AbortedIn before id' := by
  have hmem : ∀ act ∈ acts, act ≠ .begun id' ∧ act ≠ .changed id' .aborted := by
    intro act hact
    rcases mem_commitActs (hacts hact) with ⟨status, rfl, hstat⟩ | ⟨entry, rfl⟩
    · simp [hstat]
    · simp
  rw [abortedIn_append fun h => (hmem _ h).1 rfl]
  exact or_iff_right fun h => (hmem _ h).2 rfl

theorem Sound.call (h : self.Sound before) (c : TransactionCall) :
    (self.call failures c).Sound (before ++ self.acts failures c) := by
  intro id status hstat
  rw [isShutdown_call]
  cases c with
  | beginTransaction =>
    rw [BrokerBridge.call, statusOf_begin] at hstat
    cases hshut : self.isShutdown with
    | true => simpa [acts, hshut] using h id status (by simpa [hshut] using hstat)
    | false =>
      simp only [hshut, true_and] at hstat
      simp only [acts, hshut, Bool.false_eq_true, if_false]
      split at hstat
      next hid =>
        -- A number that is given out again is no longer that of the aborted transaction.
        cases hstat
        simp [AbortedIn, since_concat, hid]
      next hid =>
        rw [abortedIn_append (by simpa using hid)]
        simpa [hshut] using h id status hstat
  | addToTransaction =>
    rw [BrokerBridge.call, statusOf_add] at hstat
    simpa [acts] using h id status hstat
  | commitTransaction id' =>
    rw [BrokerBridge.call, statusOf_commit] at hstat
    split at hstat
    · cases hstat
    · have hacts : AbortedIn (before ++ self.acts failures (.commitTransaction id')) id ↔
          AbortedIn before id := by
        rw [acts]
        split
        · rw [List.append_nil]
        · exact abortedIn_append_commit (List.Subset.refl _)
      simpa [hacts] using h id status hstat
  | abortTransaction id' =>
    rw [BrokerBridge.call, statusOf_abort] at hstat
    split at hstat
    · cases hstat
    next hne =>
      have hacts : AbortedIn (before ++ self.acts failures (.abortTransaction id')) id ↔
          AbortedIn before id := by
        rw [acts]
        split
        · rw [List.append_nil]
        · rw [abortedIn_append (by simp)]
          simp [hne]
      simpa [hacts] using h id status hstat
  | shutdown =>
    rw [BrokerBridge.call, statusOf_shutdown] at hstat
    obtain ⟨old, hold, rfl⟩ := Option.map_eq_some_iff.mp hstat
    have hbef := h id old hold
    rw [acts, abortedIn_append (by simp)]
    cases hshut : self.isShutdown with
    | true => simp_all
    | false => simp_all [mem_active]

/-- After a shutdown only transactions that are not in the table are committed. -/
def CommitsInTime (self : BrokerBridge) (c : TransactionCall) : Prop :=
  ∀ id, c = .commitTransaction id → self.isShutdown → self.transactions.lookup id = none

private theorem not_affects {c : TransactionCall} (hc : ∀ id, c ≠ .commitTransaction id)
    (hact : act ∈ self.acts failures c) (id : UInt64) : ¬ act.Affects id := by
  cases c with
  | beginTransaction | abortTransaction =>
    rw [acts] at hact
    split at hact <;> simp_all [Act.Affects]
  | addToTransaction => cases hact
  | commitTransaction id' => exact absurd rfl (hc id')
  | shutdown =>
    obtain ⟨id', -, rfl⟩ := List.mem_map.mp hact
    exact fun h => h.2 rfl

theorem Sound.noLaterEffect_acts_iff (h : self.Sound before) (c : TransactionCall) :
    NoLaterEffect before (self.acts failures c) ↔ self.CommitsInTime c := by
  by_cases hc : ∀ id, c ≠ .commitTransaction id
  · refine iff_of_true (fun first act hfirst id _ => ?_) fun id hid => absurd hid (hc id)
    exact not_affects hc (hfirst.subset (List.mem_append_right _ List.mem_cons_self)) id
  · simp only [not_forall, not_not] at hc
    obtain ⟨id, rfl⟩ := hc
    rw [acts]
    cases hget : self.transactions.lookup id with
    | none =>
      refine iff_of_true eachStep_nil fun id' hid' _ => ?_
      cases hid'
      exact hget
    | some transaction =>
      have haborted := (h id transaction.status (by simp [statusOf, hget])).2
      have hcoms : self.CommitsInTime (.commitTransaction id) ↔ ¬ AbortedIn before id := by
        simp [CommitsInTime, hget, haborted]
      rw [hcoms]
      constructor
      · intro heffect hid
        exact (eachStep_cons.mp heffect).1 id hid ⟨rfl, by decide⟩
      · -- All acts are those of this transaction, and none of them aborts it.
        intro hid first act hfirst id' hid' haffects
        rw [foldl_concat, abortedIn_append_commit
          fun _ hact => hfirst.subset (List.mem_append_left _ hact)] at hid'
        have hact := mem_commitActs (hfirst.subset (List.mem_append_right _ List.mem_cons_self))
        rcases hact with ⟨status, rfl, -⟩ | ⟨entry, rfl⟩
        · exact hid (haffects.1 ▸ hid')
        · exact hid (haffects ▸ hid')

theorem Sound.noLaterEffect_trace_iff (h : self.Sound before) (calls : List TransactionCall) :
    NoLaterEffect before (self.trace failures calls) ↔
      EachStep (BrokerBridge.call failures) CommitsInTime self calls := by
  induction calls generalizing self before with
  | nil => exact iff_of_true eachStep_nil eachStep_nil
  | cons c calls ih =>
    have hfirst : NoLaterEffect before (self.acts failures c) ↔ self.CommitsInTime c :=
      h.noLaterEffect_acts_iff c
    rw [eachStep_cons, ← hfirst, ← ih (h.call c), ← foldl_concat]
    exact eachStep_append

/-- Aborted transactions have no later effect iff no transaction of the table is committed once
the bridge is shut down. -/
theorem noLaterEffect_iff (failures : Failures) (storage : SegmentStorage) (config : BridgeConfig)
    (calls : List TransactionCall) :
    NoLaterEffect [] ((new storage config).trace failures calls) ↔
      EachStep (BrokerBridge.call failures) CommitsInTime (new storage config) calls := by
  refine Sound.noLaterEffect_trace_iff (fun id status h => ?_) calls
  cases h

/-- A transaction is aborted by the shutdown, and then committed: its entry is stored, and it
counts as committed. -/
theorem aborted_then_committed :
    let bridge := new { entries := ∅, calls := 0 } .default
    let calls : List TransactionCall :=
      [.beginTransaction 0, .addToTransaction 1 (.store "orders" (numbered 1)), .shutdown,
        .commitTransaction 1]
    bridge.trace (fun _ => none) calls =
        [.begun 1, .changed 1 .aborted, .changed 1 .prepared, .stored 1 (numbered 1),
          .changed 1 .committed] ∧
      ¬ NoLaterEffect [] (bridge.trace (fun _ => none) calls) := by
  intro bridge calls
  have htrace : bridge.trace (fun _ => none) calls =
      [.begun 1, .changed 1 .aborted, .changed 1 .prepared, .stored 1 (numbered 1),
        .changed 1 .committed] := by rfl
  rw [htrace]
  refine ⟨rfl, fun h => ?_⟩
  refine h [.begun 1, .changed 1 .aborted, .changed 1 .prepared] (.stored 1 (numbered 1))
    (by simp) 1 ?_ rfl
  exact ⟨[.begun 1], .changed 1 .aborted, [.changed 1 .prepared], rfl, rfl, by simp⟩

/-! ## Stored entries -/

/-- The transaction has the operation. -/
def Holds (self : BrokerBridge) (id : UInt64) (operation : TransactionOperation) : Prop :=
  ∃ transaction, self.transactions.lookup id = some transaction ∧
    operation ∈ transaction.operations

variable {c : TransactionCall} {entry : StorageEntry}

private theorem holds_of_call {id : UInt64} {operation : TransactionOperation}
    (h : (self.call failures c).Holds id operation) :
    self.Holds id operation ∨ c = .addToTransaction id operation := by
  obtain ⟨transaction, hget, hmem⟩ := h
  cases c with
  | beginTransaction =>
    rw [call, beginTransaction] at hget
    split at hget
    · exact .inl ⟨_, hget, hmem⟩
    · simp only [HashMap.lookup_insert_eq] at hget
      split at hget
      · cases hget
        cases hmem
      · exact .inl ⟨_, hget, hmem⟩
  | addToTransaction id' operation' =>
    rw [call, addToTransaction] at hget
    split at hget
    · exact .inl ⟨_, hget, hmem⟩
    next old hold =>
      split at hget
      · exact .inl ⟨_, hget, hmem⟩
      · simp only [HashMap.lookup_insert_eq] at hget
        split at hget
        next hid =>
          subst hid
          cases hget
          rcases List.mem_append.mp hmem with hmem | hmem
          · exact .inl ⟨old, hold, hmem⟩
          · rw [List.mem_singleton.mp hmem]
            exact .inr rfl
        next => exact .inl ⟨_, hget, hmem⟩
  | commitTransaction | abortTransaction =>
    simp only [call, commitTransaction, abortTransaction] at hget
    split at hget
    · exact .inl ⟨_, hget, hmem⟩
    · simp only [lookup_erase_setStatus] at hget
      rw [HashMap.lookup_erase_eq] at hget
      split at hget
      · cases hget
      · exact .inl ⟨_, hget, hmem⟩
  | shutdown =>
    rw [call, shutdown, HashMap.lookup_mapValues] at hget
    obtain ⟨old, hold, rfl⟩ := Option.map_eq_some_iff.mp hget
    refine .inl ⟨old, hold, ?_⟩
    unfold abortActive at hmem
    split at hmem <;> exact hmem

private theorem readable_executeOperations {storage : SegmentStorage}
    (h : (executeOperations failures storage operations).1.Readable entry) :
    storage.Readable entry ∨ ∃ topic, .store topic entry ∈ operations := by
  induction operations generalizing storage with
  | nil => exact .inl h
  | cons operation operations ih =>
    rcases ih h with hread | ⟨topic, hmem⟩
    · cases operation with
      | store topic entry' =>
        change (storage.storeEntry failures entry').1.Readable entry at hread
        rw [SegmentStorage.storeEntry] at hread
        split at hread
        · exact .inl hread
        · simp only [SegmentStorage.Readable, SegmentStorage.retrieveEntry,
            HashMap.lookup_insert_eq] at hread
          split at hread
          · cases hread
            exact .inr ⟨topic, List.mem_cons_self⟩
          · exact .inl hread
      | delete | updateSubscription => exact .inl hread
    · exact .inr ⟨topic, List.mem_cons_of_mem operation hmem⟩

private theorem readable_of_call (h : (self.call failures c).storage.Readable entry) :
    self.storage.Readable entry ∨
      ∃ id topic, c = .commitTransaction id ∧ self.Holds id (.store topic entry) := by
  cases c with
  | beginTransaction | abortTransaction =>
    rw [storage_call, acts] at h
    split at h <;> exact .inl h
  | addToTransaction =>
    rw [storage_call] at h
    exact .inl h
  | shutdown => exact .inl h
  | commitTransaction id =>
    cases hget : self.transactions.lookup id with
    | none =>
      rw [storage_call, acts, hget] at h
      exact .inl h
    | some transaction =>
      rw [call, (commitTransaction_of_lookup failures hget).1] at h
      exact (readable_executeOperations h).imp_right fun ⟨topic, hmem⟩ =>
        ⟨id, topic, rfl, transaction, hget, hmem⟩

private theorem readable_of_calls {calls : List TransactionCall}
    (h : (calls.foldl (call failures) self).storage.Readable entry) :
    self.storage.Readable entry ∨ ∃ id topic,
      self.Holds id (.store topic entry) ∧ .commitTransaction id ∈ calls ∨
        [.addToTransaction id (.store topic entry), .commitTransaction id].Sublist calls := by
  induction calls generalizing self with
  | nil => exact .inl h
  | cons c calls ih =>
    rcases ih h with hread | ⟨id, topic, ⟨hholds, hcom⟩ | hsub⟩
    · refine (readable_of_call hread).imp_right fun ⟨id, topic, hc, hholds⟩ => ?_
      exact ⟨id, topic, .inl ⟨hholds, hc ▸ List.mem_cons_self⟩⟩
    · refine .inr ⟨id, topic, ?_⟩
      rcases holds_of_call hholds with hholds | rfl
      · exact .inl ⟨hholds, List.mem_cons_of_mem c hcom⟩
      · exact .inr (.cons_cons _ (List.singleton_sublist.mpr hcom))
    · exact .inr ⟨id, topic, .inr (.cons c hsub)⟩

/-- Nothing is stored but what was added to a transaction that was committed afterwards. -/
theorem stored_was_committed (failures : Failures) (storage : SegmentStorage)
    (config : BridgeConfig) (calls : List TransactionCall) (entry : StorageEntry)
    (h : (calls.foldl (call failures) (new storage config)).storage.Readable entry) :
    storage.Readable entry ∨ ∃ id topic,
      [.addToTransaction id (.store topic entry), .commitTransaction id].Sublist calls := by
  rcases readable_of_calls h with hread | ⟨id, topic, ⟨⟨transaction, hget, -⟩, -⟩ | hsub⟩
  · exact .inl hread
  · cases hget
  · exact .inr ⟨id, topic, hsub⟩

theorem stored_was_committed_sample :
    let calls : List TransactionCall := [.beginTransaction 0,
      .addToTransaction 1 (.store "orders" (numbered 1)), .commitTransaction 1]
    ∃ id topic, [.addToTransaction id (.store topic (numbered 1)), .commitTransaction id].Sublist
      calls := by
  intro calls
  refine (stored_was_committed (fun _ => none) ⟨∅, 0⟩ .default calls (numbered 1)
    rfl).resolve_left ?_
  intro hread
  cases hread

end BrokerBridge

end Kaelix.Storage.Integration
