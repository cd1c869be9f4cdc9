import Kaelix.Lib.History
import Kaelix.Cluster.Node.Address

/-!
# Session guarantees

`ConsistencyManager` of `replication/consistency.rs`.  A session remembers the highest write
recorded for it, and the manager the highest sequence read from each node.

A history is any sequence of sessions created, writes recorded and reads checked, where an
accepted read is recorded for its node at once.  Reads of a session are never below its writes,
and Monotonic reads from one node never go back.
-/

namespace Kaelix.Storage.Replication

open Lib Cluster

/-- What a read asks of the replicas. -/
inductive ConsistencyLevel where
  | eventual
  | readYourWrites
  | monotonic
  | strong
  deriving DecidableEq

/-- What is kept of a session. -/
structure SessionInfo where
  sessionId : String
  lastWriteSequence : Nat
  lastReadTimestamp : Nat
  originNode : NodeId
  deriving DecidableEq

/-- The manager, without the vector clocks, which no check reads. -/
structure ConsistencyManager where
  sessions : HashMap String SessionInfo
  nodeSequences : HashMap NodeId Nat
  localNodeId : NodeId

namespace ConsistencyManager

def new (localNodeId : NodeId) : ConsistencyManager :=
  { sessions := ∅, nodeSequences := ∅, localNodeId := localNodeId }

variable (self : ConsistencyManager)

/-- `create_session`, at the time `now`.  A session of the same id is replaced. -/
def createSession (sessionId : String) (now : Nat) : ConsistencyManager × SessionInfo :=
  let session : SessionInfo :=
    { sessionId := sessionId
      lastWriteSequence := 0
      lastReadTimestamp := now
      originNode := self.localNodeId }
  ({ self with sessions := self.sessions.insert sessionId session }, session)

/-- `update_session_write`: an unknown session is ignored. -/
def updateSessionWrite (sessionId : String) (sequence : Nat) : ConsistencyManager :=
  match self.sessions.lookup sessionId with
  | some session =>
    { self with
      sessions := self.sessions.insert sessionId
        { session with lastWriteSequence := max session.lastWriteSequence sequence } }
  | none => self

/-- `check_read_consistency`, which never fails. -/
def checkReadConsistency (level : ConsistencyLevel)
    (sessionId : Option String) (readSequence : Nat) (readNode : NodeId) : Bool :=
  match level with
  | .eventual => true
  | .readYourWrites =>
    match sessionId with
    | some sessionId =>
      match self.sessions.lookup sessionId with
      | some session => readSequence ≥ session.lastWriteSequence
      | none => false
    | none => false
  | .monotonic =>
    match self.nodeSequences.lookup readNode with
    | some lastSequence => readSequence ≥ lastSequence
    | none => true
  | .strong => true

def updateNodeSequence (nodeId : NodeId) (sequence : Nat) : ConsistencyManager :=
  let current := (self.nodeSequences.lookup nodeId).getD 0
  { self with nodeSequences := self.nodeSequences.insert nodeId (max current sequence) }

end ConsistencyManager

/-! ## Histories -/

structure Read where
  level : ConsistencyLevel
  sessionId : Option String
  sequence : Nat
  node : NodeId
  deriving DecidableEq

/-- What can happen in a session. -/
inductive SessionEvent where
  | createSession (sessionId : String) (now : Nat)
  | updateSessionWrite (sessionId : String) (sequence : Nat)
  | read (r : Read)
  deriving DecidableEq

namespace ConsistencyManager

variable (self : ConsistencyManager)

def accepts (r : Read) : Bool :=
  self.checkReadConsistency r.level r.sessionId r.sequence r.node

def step : SessionEvent → ConsistencyManager
  | .createSession sessionId now => (self.createSession sessionId now).1
  | .updateSessionWrite sessionId sequence => self.updateSessionWrite sessionId sequence
  | .read r => if self.accepts r then self.updateNodeSequence r.node r.sequence else self

/-- The session is not created again in between. -/
def SameSession (id : String) (mid : List SessionEvent) : Prop :=
  ∀ now, .createSession id now ∉ mid

def sessionRead (id : String) (sequence : Nat) (node : NodeId) : Read :=
  { level := .readYourWrites, sessionId := some id, sequence := sequence, node := node }

def monotonicRead (id : String) (sequence : Nat) (node : NodeId) : Read :=
  { level := .monotonic, sessionId := some id, sequence := sequence, node := node }

/-- The guarantees of a history.  Since its creation, an accepted read of a session is
below no write recorded for the session and below no earlier accepted read of it; accepted
Monotonic reads with one session id never go back. -/
structure SessionGuarantees (m : ConsistencyManager) (es : List SessionEvent) : Prop where
  readYourWrites : ∀ m₁ id w mid m₂ x n,
    Later step m es m₁ (.updateSessionWrite id w) mid m₂ (.read (sessionRead id x n)) →
    SameSession id mid → m₂.accepts (sessionRead id x n) = true → w ≤ x
  sessionReads : ∀ m₁ id x₁ n₁ mid m₂ x₂ n₂,
    Later step m es m₁ (.read (sessionRead id x₁ n₁)) mid m₂ (.read (sessionRead id x₂ n₂)) →
    SameSession id mid → m₁.accepts (sessionRead id x₁ n₁) = true →
    m₂.accepts (sessionRead id x₂ n₂) = true → x₁ ≤ x₂
  monotonicReads : ∀ m₁ id x₁ n₁ mid m₂ x₂ n₂,
    Later step m es m₁ (.read (monotonicRead id x₁ n₁)) mid m₂ (.read (monotonicRead id x₂ n₂)) →
    m₁.accepts (monotonicRead id x₁ n₁) = true →
    m₂.accepts (monotonicRead id x₂ n₂) = true → x₁ ≤ x₂

/-! ## What the calls say -/

/-- What a call makes of the last write of a session, which is forgotten at its creation. -/
def noteWrite (id : String) (last : Option Nat) : SessionEvent → Option Nat
  | .createSession id' _ => if id = id' then some 0 else last
  | .updateSessionWrite id' w => if id = id' then last.map (max · w) else last
  | .read _ => last

/-- The highest write recorded for a session since it was created. -/
def lastWrite (id : String) (calls : List SessionEvent) : Option Nat :=
  calls.foldl (noteWrite id) none

/-- A ReadYourWrites read names a session that was created, and no write recorded for it is above
the read. -/
def CoversWrites (calls : List SessionEvent) (r : Read) : Prop :=
  r.level = .readYourWrites → ∃ id ∈ r.sessionId, ∃ w ∈ lastWrite id calls, w ≤ r.sequence

/-- The node was read above `x`, by a read that covers the writes recorded before it. -/
def Overtaken (calls : List SessionEvent) (n : NodeId) (x : Nat) : Prop :=
  ∃ before r, before ++ [.read r] <+: calls ∧ r.node = n ∧ x < r.sequence ∧ CoversWrites before r

/-- What the calls have to keep to.  Where a session is read below an earlier read of it, a write
recorded before is above the second; where a Monotonic read is below an earlier one with its
session id, the node of one of them was read above it before. -/
structure InOrder (calls : List SessionEvent) : Prop where
  sessionReads : ∀ before id x₁ n₁ mid x₂ n₂,
    before ++ .read (sessionRead id x₁ n₁) :: (mid ++ [.read (sessionRead id x₂ n₂)]) <+: calls →
    SameSession id mid → x₂ < x₁ →
    ∀ w ∈ lastWrite id (before ++ .read (sessionRead id x₁ n₁) :: mid), x₂ < w
  monotonicReads : ∀ before id x₁ n₁ mid x₂ n₂,
    before ++ .read (monotonicRead id x₁ n₁) :: (mid ++ [.read (monotonicRead id x₂ n₂)]) <+:
      calls → x₂ < x₁ →
    Overtaken before n₁ x₁ ∨ Overtaken (before ++ .read (monotonicRead id x₁ n₁) :: mid) n₂ x₂

/-! ## What the manager remembers -/

/-- A new manager after the calls. -/
def run (localNodeId : NodeId) (calls : List SessionEvent) : ConsistencyManager :=
  calls.foldl step (new localNodeId)

private theorem lastWriteSequence_step (m : ConsistencyManager) (id : String) (e : SessionEvent) :
    ((m.step e).sessions.lookup id).map SessionInfo.lastWriteSequence =
      noteWrite id ((m.sessions.lookup id).map SessionInfo.lastWriteSequence) e := by
  cases e with
  | createSession id' now =>
    rw [step, createSession, noteWrite, HashMap.lookup_insert_eq]
    split <;> rfl
  | updateSessionWrite id' w =>
    rw [step, updateSessionWrite, noteWrite]
    by_cases hid : id = id'
    · subst hid
      cases hlook : m.sessions.lookup id with
      | none => simp [hlook]
      | some => simp [AList.lookup_insert]
    · rw [if_neg hid]
      split
      · rw [HashMap.lookup_insert_eq, if_neg hid]
      · rfl
  | read =>
    rw [step]
    split <;> rfl

theorem run_concat (localNodeId : NodeId) (calls : List SessionEvent) (e : SessionEvent) :
    run localNodeId (calls ++ [e]) = (run localNodeId calls).step e :=
  List.foldl_concat _ _ _ _

variable {id : String}

section

variable {calls : List SessionEvent}

private theorem lastWriteSequence_run (localNodeId : NodeId) (id : String) :
    ((run localNodeId calls).sessions.lookup id).map SessionInfo.lastWriteSequence =
      lastWrite id calls := by
  induction calls using List.reverseRecOn with
  | nil => rfl
  | append_singleton calls e ih =>
    rw [run_concat, lastWriteSequence_step, ih, lastWrite, lastWrite, List.foldl_concat]

variable {localNodeId : NodeId}

/-- What a level checks: ReadYourWrites the writes of the session, Monotonic the last read of the
node, and the others nothing. -/
theorem accepts_iff (r : Read) :
    (run localNodeId calls).accepts r = true ↔ CoversWrites calls r ∧
      (r.level = .monotonic →
        ∀ last ∈ (run localNodeId calls).nodeSequences.lookup r.node, last ≤ r.sequence) := by
  obtain ⟨level, sessionId, sequence, node⟩ := r
  cases level with
  | eventual | strong => simp [accepts, checkReadConsistency, CoversWrites]
  | monotonic =>
    simp only [accepts, checkReadConsistency, CoversWrites]
    cases (run localNodeId calls).nodeSequences.lookup node <;> simp
  | readYourWrites =>
    cases sessionId with
    | none => simp [accepts, checkReadConsistency, CoversWrites]
    | some id =>
      simp only [accepts, checkReadConsistency, CoversWrites,
        ← lastWriteSequence_run localNodeId]
      cases hlook : (run localNodeId calls).sessions.lookup id <;> simp [hlook]

variable {n : NodeId} {x : Nat}

private theorem overtaken_concat {e : SessionEvent} :
    Overtaken (calls ++ [e]) n x ↔ Overtaken calls n x ∨
      ∃ r, e = .read r ∧ r.node = n ∧ x < r.sequence ∧ CoversWrites calls r := by
  constructor
  · rintro ⟨before, r, hpre, hr⟩
    rcases List.prefix_concat_iff.mp hpre with heq | hold
    · obtain ⟨rfl, hlast⟩ := List.append_inj' heq rfl
      exact .inr ⟨r, (List.singleton_inj.mp hlast).symm, hr⟩
    · exact .inl ⟨before, r, hold, hr⟩
  · rintro (⟨before, r, hpre, hr⟩ | ⟨r, rfl, hr⟩)
    · exact ⟨before, r, hpre.trans (List.prefix_append _ _), hr⟩
    · exact ⟨calls, r, List.prefix_refl _, hr⟩

/-- The manager has a node at the highest read that `Overtaken` counts: a Monotonic read that is
refused is below one that was recorded. -/
theorem overtaken_iff (localNodeId : NodeId) :
    Overtaken calls n x ↔ ∃ last ∈ (run localNodeId calls).nodeSequences.lookup n, x < last := by
  induction calls using List.reverseRecOn with
  | nil => simp [Overtaken, run, new, AList.lookup_empty]
  | append_singleton calls e ih =>
    rw [overtaken_concat, ih, run_concat]
    cases e with
    | createSession => simp [step, createSession]
    | updateSessionWrite =>
      simp only [step, updateSessionWrite, reduceCtorEq, false_and, exists_false, or_false]
      split <;> rfl
    | read r =>
      simp only [SessionEvent.read.injEq, exists_eq_left', step]
      split
      · next hacc =>
        have hcov := ((accepts_iff r).mp hacc).1
        rw [updateNodeSequence, HashMap.lookup_insert_eq]
        by_cases hn : n = r.node
        · subst hn
          cases (run localNodeId calls).nodeSequences.lookup r.node <;> simp [hcov]
        · simp [hn, Ne.symm hn]
      · next href =>
        refine or_iff_left_of_imp ?_
        rintro ⟨rfl, hlt, hcov⟩
        rw [accepts_iff, and_iff_right hcov, Classical.not_imp] at href
        push Not at href
        obtain ⟨-, last, hlast, hbelow⟩ := href
        exact ⟨last, hlast, hlt.trans hbelow⟩

private theorem accepts_monotonicRead_iff :
    (run localNodeId calls).accepts (monotonicRead id x n) = true ↔ ¬ Overtaken calls n x := by
  rw [accepts_iff, overtaken_iff localNodeId]
  simp [CoversWrites, monotonicRead]

private theorem accepts_sessionRead_iff :
    (run localNodeId calls).accepts (sessionRead id x n) = true ↔
      ∃ w ∈ lastWrite id calls, w ≤ x := by
  rw [accepts_iff]
  simp [CoversWrites, sessionRead]

end

/-! ## Two moments of a history -/

private theorem later_iff {localNodeId : NodeId} {calls mid : List SessionEvent}
    {m₁ m₂ : ConsistencyManager} {e₁ e₂ : SessionEvent} :
    Later step (new localNodeId) calls m₁ e₁ mid m₂ e₂ ↔
      ∃ before, before ++ e₁ :: (mid ++ [e₂]) <+: calls ∧ m₁ = run localNodeId before ∧
        m₂ = run localNodeId (before ++ e₁ :: mid) := by
  constructor
  · rintro ⟨⟨before, hpre, rfl⟩, rfl⟩
    exact ⟨before, hpre, rfl, by simp [run]⟩
  · rintro ⟨before, hpre, rfl, rfl⟩
    exact ⟨⟨before, hpre, rfl⟩, by simp [run]⟩

/-- As long as a session is not created again, its last write only goes up. -/
theorem exists_lastWrite_eq {mid : List SessionEvent} (h : SameSession id mid) :
    ∃ v, ∀ last, mid.foldl (noteWrite id) last = last.map (max · v) := by
  induction mid with
  | nil => exact ⟨0, fun last => by cases last <;> simp⟩
  | cons e mid ih =>
    obtain ⟨v, hv⟩ := ih fun now hmem => h now (List.mem_cons_of_mem _ hmem)
    simp only [List.foldl_cons, hv]
    cases e with
    | createSession id' now =>
      have hne : id ≠ id' := fun heq => h now (heq ▸ List.mem_cons_self)
      exact ⟨v, fun last => by rw [noteWrite, if_neg hne]⟩
    | updateSessionWrite id' w =>
      by_cases hid : id = id'
      · exact ⟨max w v, fun last => by cases last <;> simp [noteWrite, hid, max_assoc]⟩
      · exact ⟨v, fun last => by rw [noteWrite, if_neg hid]⟩
    | read => exact ⟨v, fun last => rfl⟩

private theorem lastWrite_append_cons (id : String) (before mid : List SessionEvent)
    (e : SessionEvent) :
    lastWrite id (before ++ e :: mid) =
      mid.foldl (noteWrite id) (noteWrite id (lastWrite id before) e) := by
  simp [lastWrite]

/-- The guarantees hold in a history of a new manager iff its calls are in order. -/
theorem sessionGuarantees_iff (localNodeId : NodeId) (calls : List SessionEvent) :
    SessionGuarantees (new localNodeId) calls ↔ InOrder calls := by
  constructor
  · intro h
    refine ⟨?_, ?_⟩
    · intro before id x₁ n₁ mid x₂ n₂ hpre hsame hlt w hw
      by_contra hle
      obtain ⟨v, hv⟩ := exists_lastWrite_eq hsame
      have hw₁ := hw
      rw [lastWrite_append_cons, hv] at hw₁
      obtain ⟨w₁, hbef, rfl⟩ := Option.mem_map.mp hw₁
      -- the writes before the first read are below the second, and so below the first
      have hle₁ : w₁ ≤ x₁ := by omega
      have hback := h.sessionReads _ id x₁ n₁ mid _ x₂ n₂
        (later_iff.mpr ⟨before, hpre, rfl, rfl⟩) hsame
        (accepts_sessionRead_iff.mpr ⟨w₁, hbef, hle₁⟩)
        (accepts_sessionRead_iff.mpr ⟨_, hw, Nat.not_lt.mp hle⟩)
      omega
    · intro before id x₁ n₁ mid x₂ n₂ hpre hlt
      by_contra hnot
      rw [not_or] at hnot
      have hback := h.monotonicReads _ id x₁ n₁ mid _ x₂ n₂
        (later_iff.mpr ⟨before, hpre, rfl, rfl⟩)
        (accepts_monotonicRead_iff.mpr hnot.1) (accepts_monotonicRead_iff.mpr hnot.2)
      omega
  · intro h
    refine ⟨?_, ?_, ?_⟩
    · intro m₁ id w mid m₂ x n hlater hsame hacc
      obtain ⟨before, -, -, rfl⟩ := later_iff.mp hlater
      obtain ⟨v, hv⟩ := exists_lastWrite_eq hsame
      obtain ⟨last, hlast, hle⟩ := accepts_sessionRead_iff.mp hacc
      rw [lastWrite_append_cons, hv, noteWrite, if_pos rfl, Option.map_map] at hlast
      obtain ⟨old, -, rfl⟩ := Option.mem_map.mp hlast
      simp only [Function.comp_apply] at hle
      omega
    · intro m₁ id x₁ n₁ mid m₂ x₂ n₂ hlater hsame _ hacc
      obtain ⟨before, hpre, -, rfl⟩ := later_iff.mp hlater
      obtain ⟨w, hw, hle⟩ := accepts_sessionRead_iff.mp hacc
      by_contra hlt
      have habove := h.sessionReads before id x₁ n₁ mid x₂ n₂ hpre hsame (by omega) w hw
      omega
    · intro m₁ id x₁ n₁ mid m₂ x₂ n₂ hlater hacc₁ hacc₂
      obtain ⟨before, hpre, rfl, rfl⟩ := later_iff.mp hlater
      by_contra hlt
      rcases h.monotonicReads before id x₁ n₁ mid x₂ n₂ hpre (by omega) with hfirst | hsec
      · exact accepts_monotonicRead_iff.mp hacc₁ hfirst
      · exact accepts_monotonicRead_iff.mp hacc₂ hsec

def readAhead : List SessionEvent :=
  [.createSession "s" 0, .updateSessionWrite "s" 5, .read (sessionRead "s" 10 ⟨1⟩),
    .read (sessionRead "s" 7 ⟨1⟩)]

def readAcross : List SessionEvent :=
  [.read (monotonicRead "s" 10 ⟨1⟩), .read (monotonicRead "s" 3 ⟨2⟩)]

/-- In both histories the second read is accepted. -/
theorem sessionGuarantees_fail :
    ¬ SessionGuarantees (new ⟨0⟩) readAhead ∧ ¬ SessionGuarantees (new ⟨0⟩) readAcross := by
  constructor
  · intro h
    have hle : 10 ≤ 7 :=
      h.sessionReads _ "s" 10 ⟨1⟩ [] _ 7 ⟨1⟩
        ⟨⟨[.createSession "s" 0, .updateSessionWrite "s" 5], List.prefix_refl _, rfl⟩, rfl⟩
        nofun (by decide) (by decide)
    omega
  · intro h
    have hle : 10 ≤ 3 :=
      h.monotonicReads _ "s" 10 ⟨1⟩ [] _ 3 ⟨2⟩ ⟨⟨[], List.prefix_refl _, rfl⟩, rfl⟩
        (by decide) (by decide)
    omega

end ConsistencyManager

end Kaelix.Storage.Replication
