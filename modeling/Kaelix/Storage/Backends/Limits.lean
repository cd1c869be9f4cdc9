import Kaelix.Storage.Backends.Memory

/-!
# The limits of the in-memory backend

`write_message` asks whether a limit is used up already, `write_batch` whether it would be passed.
-/

namespace Kaelix.Storage.Backends

open Lib

namespace MemoryBackend

theorem checkLimit_eq_ok_iff (limit : Option Nat) (exceeded : Nat → Nat → Bool) (used : Nat) :
    checkLimit limit exceeded used = .ok () ↔ ∀ max ∈ limit, exceeded used max = false := by
  cases limit with
  | none => simp [checkLimit]
  | some capacity => cases h : exceeded used capacity <;> simp [checkLimit, h]

private theorem checks_eq_ok_iff (first second : StorageResult Unit) :
    (do first; second) = .ok () ↔ first = .ok () ∧ second = .ok () := by
  cases first with
  | _ => simp [bind, Except.bind]

section

variable (b : MemoryBackend)

theorem checkLimits_eq_ok_iff :
    b.checkLimits = .ok () ↔
      (∀ max ∈ b.config.maxMessages, b.messageCount < max) ∧
        ∀ max ∈ b.config.maxMemory, b.totalBytes < max := by
  simp [checkLimits, checks_eq_ok_iff, checkLimit_eq_ok_iff]

theorem checkBatchLimits_eq_ok_iff (messages : List Message) :
    b.checkBatchLimits messages = .ok () ↔
      (∀ max ∈ b.config.maxMessages, b.messageCount + messages.length ≤ max) ∧
        ∀ max ∈ b.config.maxMemory, b.totalBytes + payload messages ≤ max := by
  simp [checkBatchLimits, checks_eq_ok_iff, checkLimit_eq_ok_iff]

/-! ## What an accepted write does -/

theorem foldl_insertEntry_eq (batch : List MessageEntry) (b : MemoryBackend) :
    batch.foldl insertEntry b =
      { b with
        messages := batch.foldl (fun messages e => messages.insert e.offset e) b.messages
        sequenceIndex := batch.foldl
          (fun index e => index.insert e.sequence e.offset) b.sequenceIndex } := by
  induction batch generalizing b with
  | nil => rfl
  | cons e batch ih => exact ih (b.insertEntry e)

def appended (messages : List Message) : MemoryBackend :=
  { (batchEntries b.writeOffset messages).foldl insertEntry b with
    writeOffset := b.writeOffset + messages.length
    messageCount := b.messageCount + messages.length
    totalBytes := b.totalBytes + payload messages }

section

variable (b : MemoryBackend) (messages : List Message)

@[simp] theorem writeOffset_appended :
    (b.appended messages).writeOffset = b.writeOffset + messages.length := rfl

@[simp] theorem messageCount_appended :
    (b.appended messages).messageCount = b.messageCount + messages.length := rfl

@[simp] theorem totalBytes_appended :
    (b.appended messages).totalBytes = b.totalBytes + payload messages := rfl

@[simp] theorem config_appended :
    (b.appended messages).config = b.config := by
  rw [appended, foldl_insertEntry_eq]

end

private theorem batchEntries_cons (start : Nat) (m : Message) (messages : List Message) :
    batchEntries start (m :: messages) = m.entry start :: batchEntries (start + 1) messages := by
  simp [batchEntries, List.mapIdx_cons, Nat.add_assoc, Nat.add_comm 1]

private theorem offsets_batchEntries (start : Nat) (messages : List Message) :
    (batchEntries start messages).map (·.offset) = List.range' start messages.length := by
  induction messages generalizing start with
  | nil => rfl
  | cons m messages ih =>
    rw [batchEntries_cons, List.map_cons, ih]
    rfl

theorem appended_cons (m : Message) (messages : List Message) :
    b.appended (m :: messages) = (b.appended [m]).appended messages := by
  simp only [appended, foldl_insertEntry_eq, batchEntries_cons, payload]
  simp [batchEntries, Nat.add_assoc, Nat.add_comm 1]

end

variable {b : MemoryBackend}

theorem writeMessage_of_ok (h : b.checkLimits = .ok ()) (m : Message) :
    b.writeMessage m = (b.appended [m], .ok b.writeOffset) := by
  simp [writeMessage, h, appended, batchEntries, insertEntry, payload]

theorem writeMessage_of_error {e : StorageError}
    (h : b.checkLimits = .error e) (m : Message) : b.writeMessage m = (b, .error e) := by
  simp [writeMessage, h]

variable {messages : List Message}

theorem writeBatch_of_ok (hne : messages ≠ []) (h : b.checkBatchLimits messages = .ok ()) :
    b.writeBatch messages =
      (b.appended messages, .ok (List.range' b.writeOffset messages.length)) := by
  simp [writeBatch, hne, h, appended, foldl_insertEntry_eq, offsets_batchEntries]

theorem writeBatch_of_error {e : StorageError}
    (hne : messages ≠ []) (h : b.checkBatchLimits messages = .error e) :
    b.writeBatch messages = (b, .error e) := by
  simp [writeBatch, hne, h]

/-! ## Within the limits -/

section

variable (b : MemoryBackend)

def call : MemoryOp → MemoryBackend × Bool
  | .writeMessage m => ((b.writeMessage m).1, (b.writeMessage m).2.isOk)
  | .writeBatch messages => ((b.writeBatch messages).1, (b.writeBatch messages).2.isOk)
  | .clear => (b.clear, true)
  | .readMessage offset => (b, (b.readMessage offset).isOk)
  | .readMessageBySequence sequence => (b, (b.readMessageBySequence sequence).isOk)
  | .readRange start stop => (b, (b.readRange start stop).isOk)

variable (op : MemoryOp)

def after : MemoryBackend := (b.call op).1

/-- No limit is exceeded. -/
structure WithinLimits (b : MemoryBackend) : Prop where
  messages : ∀ max ∈ b.config.maxMessages, b.messageCount ≤ max
  memory : ∀ max ∈ b.config.maxMemory, b.totalBytes ≤ max

/-- A call that fails changes nothing. -/
def UnchangedOnError : Prop :=
  (b.call op).2 = false → b.after op = b

/-- A single message that comes while both counters are below their limits has a payload that
fits into the memory that is left. -/
def Fits : MemoryOp → Prop
  | .writeMessage m =>
    (∀ max ∈ b.config.maxMessages, b.messageCount < max) →
      ∀ max ∈ b.config.maxMemory, b.totalBytes < max → m.data.length ≤ max - b.totalBytes
  | _ => True

private theorem unchangedOnError : UnchangedOnError b op := by
  intro herror
  cases op with
  | writeMessage =>
    cases h : b.checkLimits with
    | error => simp [after, call, writeMessage_of_error h]
    | ok => simp [call, writeMessage_of_ok h, Except.isOk, Except.toBool] at herror
  | writeBatch messages =>
    by_cases hne : messages = []
    · simp [after, call, writeBatch, hne]
    · cases h : b.checkBatchLimits messages with
      | error => simp [after, call, writeBatch_of_error hne h]
      | ok => simp [call, writeBatch_of_ok hne h, Except.isOk, Except.toBool] at herror
  | clear => simp [call] at herror
  | _ => rfl

private theorem withinLimits_appended_iff (messages : List Message) :
    WithinLimits (b.appended messages) ↔
      (∀ max ∈ b.config.maxMessages, b.messageCount + messages.length ≤ max) ∧
        ∀ max ∈ b.config.maxMemory, b.totalBytes + payload messages ≤ max := by
  constructor
  · intro h
    simpa using And.intro h.messages h.memory
  · intro h
    exact ⟨by simpa using h.1, by simpa using h.2⟩

end

private theorem fits_of_error (h : b.checkLimits ≠ .ok ()) (m : Message) : Fits b (.writeMessage m)
    := by
  intro hcnt max hmax hmemy
  refine absurd ((checkLimits_eq_ok_iff b).mpr ⟨hcnt, fun max' hmax' => ?_⟩) h
  rwa [Option.mem_unique hmax' hmax]

private theorem fits_iff_of_ok (h : b.checkLimits = .ok ()) (m : Message) :
    Fits b (.writeMessage m) ↔
      ∀ max ∈ b.config.maxMemory, b.totalBytes + m.data.length ≤ max := by
  obtain ⟨hcnt, hmemy⟩ := (checkLimits_eq_ok_iff b).mp h
  constructor
  · intro hfits max hmax
    have hleft := hfits hcnt max hmax (hmemy max hmax)
    have hbelow := hmemy max hmax
    omega
  · intro htot _ max hmax _
    have hle := htot max hmax
    omega

theorem WithinLimits.after_iff (hb : WithinLimits b) (op : MemoryOp) :
    WithinLimits (b.after op) ↔ Fits b op := by
  cases op with
  | writeMessage m =>
    cases h : b.checkLimits with
    | error e =>
      have hfits := fits_of_error (b := b) (by simp [h]) m
      simp [after, call, writeMessage_of_error h, hb, hfits]
    | ok =>
      have hcnt : ∀ max ∈ b.config.maxMessages, b.messageCount + 1 ≤ max :=
        ((checkLimits_eq_ok_iff b).mp h).1
      rw [fits_iff_of_ok h]
      simp only [after, call, writeMessage_of_ok h, withinLimits_appended_iff]
      simp [payload]
      exact fun _ => hcnt
  | writeBatch messages =>
    by_cases hne : messages = []
    · simpa [after, call, writeBatch, hne, Fits] using hb
    · cases h : b.checkBatchLimits messages with
      | error => simpa [after, call, writeBatch_of_error hne h, Fits] using hb
      | ok =>
        have hlim := (checkBatchLimits_eq_ok_iff b messages).mp h
        simpa [after, call, writeBatch_of_ok hne h, Fits, withinLimits_appended_iff] using hlim
  | clear =>
    have hclear : WithinLimits b.clear := ⟨by simp [clear], by simp [clear]⟩
    simpa [after, call, Fits] using hclear
  | _ => simpa [after, call, Fits] using hb

/-- Over every history of calls: the limits are kept throughout, and errors change nothing,
iff every single message that comes below both limits fits into the memory that is left. -/
theorem limits_respected_iff (config : MemoryBackendConfig) (ops : List MemoryOp) :
    Always after WithinLimits (.withConfig config) ops ∧
        EachStep after UnchangedOnError (.withConfig config) ops ↔
      EachStep after Fits (.withConfig config) ops := by
  have hstart : WithinLimits (.withConfig config) := ⟨by simp [withConfig], by simp [withConfig]⟩
  have herrors : EachStep after UnchangedOnError (.withConfig config) ops := fun _ _ _ =>
    unchangedOnError _ _
  rw [and_iff_left herrors]
  exact always_iff_eachStep (I := fun _ => True) trivial hstart (fun _ _ _ _ _ => trivial)
    fun b op _ hb => hb.after_iff op

/-- A limit of ten bytes does not stop a message of eleven. -/
theorem limits_passed :
    let config : MemoryBackendConfig := { maxMessages := some 5, maxMemory := some 10 }
    let b := (withConfig config).after (.writeMessage ⟨1, List.replicate 11 0, 0⟩)
    b.totalBytes = 11 ∧
      ¬ Always after WithinLimits (.withConfig config)
        [.writeMessage ⟨1, List.replicate 11 0, 0⟩] := by
  refine ⟨rfl, fun h => ?_⟩
  have hlast : 11 ≤ 10 := h.last.memory 10 rfl
  omega

/-! ## Batches and single writes -/

def writeEach (b : MemoryBackend) : List Message → MemoryBackend × StorageResult (List Nat)
  | [] => (b, .ok [])
  | m :: messages =>
    match b.writeMessage m with
    | (b, .error e) => (b, .error e)
    | (b, .ok offset) =>
      let rest := b.writeEach messages
      (rest.1, rest.2.map (offset :: ·))

/-- The limits have room for the messages one by one: before the last of them neither is
used up. -/
def RoomForEach (b : MemoryBackend) (messages : List Message) : Prop :=
  messages = [] ∨
    (∀ max ∈ b.config.maxMessages, b.messageCount + messages.length ≤ max) ∧
      ∀ max ∈ b.config.maxMemory, b.totalBytes + payload messages.dropLast < max

private theorem within_mono {limit : Option Nat} {less more : Nat} (hle : less ≤ more)
    (h : ∀ max ∈ limit, more ≤ max) : ∀ max ∈ limit, less ≤ max := fun max hmax =>
  hle.trans (h max hmax)

private theorem roomForEach_cons (b : MemoryBackend) (m : Message) (messages : List Message) :
    RoomForEach b (m :: messages) ↔
      b.checkLimits = .ok () ∧ RoomForEach (b.appended [m]) messages := by
  rw [checkLimits_eq_ok_iff]
  cases messages with
  | nil =>
    simp only [RoomForEach, List.length_singleton, Nat.succ_le_iff]
    simp [payload]
  | cons =>
    simp only [RoomForEach, config_appended, messageCount_appended, totalBytes_appended]
    simp [payload]
    constructor
    · intro h
      exact ⟨⟨within_mono (by omega) h.1, within_mono (by omega) h.2⟩,
        within_mono (by omega) h.1, within_mono (by omega) h.2⟩
    · intro h
      exact ⟨within_mono (by omega) h.2.1, within_mono (by omega) h.2.2⟩

theorem writeEach_of_room (h : RoomForEach b messages) :
    b.writeEach messages =
      (b.appended messages, .ok (List.range' b.writeOffset messages.length)) := by
  induction messages generalizing b with
  | nil => rfl
  | cons m messages ih =>
    obtain ⟨hlim, hrest⟩ := (roomForEach_cons b m messages).mp h
    rw [appended_cons b m messages, writeEach, writeMessage_of_ok hlim]
    simp [ih hrest, List.range'_succ, Except.map]

theorem roomForEach_of_ok {offsets : List Nat}
    (h : (b.writeEach messages).2 = .ok offsets) : RoomForEach b messages := by
  induction messages generalizing b offsets with
  | nil => exact .inl rfl
  | cons m messages ih =>
    rw [roomForEach_cons]
    cases hlim : b.checkLimits with
    | error => simp [writeEach, writeMessage_of_error hlim] at h
    | ok =>
      simp only [writeEach, writeMessage_of_ok hlim] at h
      cases hrest : ((b.appended [m]).writeEach messages).2 with
      | error => simp [hrest, Except.map] at h
      | ok => exact ⟨rfl, ih hrest⟩

/-- The messages have one sequence number and the same data. -/
def SameContent (m m' : Message) : Prop := m.sequence = m'.sequence ∧ m.data = m'.data

def content (e : MessageEntry) : Nat × Nat × Bytes := (e.sequence, e.offset, e.data)

/-- The backends hold the same messages. -/
structure SameState (b b' : MemoryBackend) : Prop where
  messages : ∀ offset : Nat, (b.messages[offset]?).map content = (b'.messages[offset]?).map content
  sequenceIndex : b.sequenceIndex = b'.sequenceIndex
  writeOffset : b.writeOffset = b'.writeOffset
  messageCount : b.messageCount = b'.messageCount
  totalBytes : b.totalBytes = b'.totalBytes
  config : b.config = b'.config

theorem SameState.refl (b : MemoryBackend) : SameState b b :=
  ⟨fun _ => rfl, rfl, rfl, rfl, rfl, rfl⟩

variable {b b' : MemoryBackend}

theorem SameState.insertEntry (h : SameState b b') {e e' : MessageEntry}
    (he : content e = content e') : SameState (b.insertEntry e) (b'.insertEntry e') := by
  obtain ⟨hseq, hoff, -⟩ : e.sequence = e'.sequence ∧ e.offset = e'.offset ∧
    e.data = e'.data := by simpa [content] using he
  refine ⟨fun offset => ?_, ?_, h.writeOffset, h.messageCount, h.totalBytes, h.config⟩
  · have hold := h.messages offset
    simp only [MemoryBackend.insertEntry, Std.TreeMap.getElem?_insert, hoff]
    split
    · simpa using he
    · exact hold
  · simp only [MemoryBackend.insertEntry, h.sequenceIndex, hseq, hoff]

variable {messages : List Message}

private theorem sameState_appended (hb : SameState b b') {messages' : List Message}
    (h : List.Forall₂ SameContent messages messages') :
    SameState (b.appended messages) (b'.appended messages') := by
  induction h generalizing b b' with
  | nil => exact hb
  | @cons m m' messages messages' hm _ ih =>
    rw [appended_cons, appended_cons b']
    apply ih
    have hent : content (m.entry b.writeOffset) = content (m'.entry b'.writeOffset) := by
      simp [content, Message.entry, hm.1, hm.2, hb.writeOffset]
    have hins := hb.insertEntry hent
    exact ⟨hins.messages, hins.sequenceIndex, by simp [hb.writeOffset],
      by simp [hb.messageCount], by simp [payload, hb.totalBytes, hm.2], by simp [hb.config]⟩

/-- Whenever the messages are written one by one, it comes to the same as the batch. -/
def BatchEqualsSequence (b : MemoryBackend) (messages : List Message) : Prop :=
  ∀ singles, List.Forall₂ SameContent messages singles →
    ∃ offsets, (b.writeBatch messages).2 = .ok offsets ∧
      (b.writeEach singles).2 = .ok offsets ∧
      SameState (b.writeBatch messages).1 (b.writeEach singles).1

variable {singles : List Message}

private theorem payload_of_sameContent (h : List.Forall₂ SameContent messages singles) :
    payload messages = payload singles := by
  induction h with
  | nil => rfl
  | cons hm _ ih => simpa [payload, hm.2] using ih

theorem RoomForEach.of_sameContent (hroom : RoomForEach b messages)
    (h : List.Forall₂ SameContent messages singles) : RoomForEach b singles := by
  have hpay : payload messages.dropLast = payload singles.dropLast := by
    rw [List.dropLast_eq_take, List.dropLast_eq_take, ← h.length_eq]
    exact payload_of_sameContent (List.forall₂_take _ h)
  cases h with
  | nil => exact hroom
  | cons hm hrest =>
    simpa [RoomForEach, hrest.length_eq, hpay] using hroom

private theorem checkBatchLimits_of_ok (hne : messages ≠ []) (h : (b.writeBatch messages).2.isOk) :
    b.checkBatchLimits messages = .ok () := by
  cases hlim : b.checkBatchLimits messages with
  | error => simp [writeBatch_of_error hne hlim, Except.isOk, Except.toBool] at h
  | ok => rfl

/-- An accepted batch comes to the same as its messages one by one iff it is empty, or the
memory is not used up before its last message. -/
theorem batch_eq_sequence_iff (b : MemoryBackend) (messages : List Message)
    (h : (b.writeBatch messages).2.isOk) :
    BatchEqualsSequence b messages ↔ messages = [] ∨
      ∀ max ∈ b.config.maxMemory, b.totalBytes + payload messages.dropLast < max := by
  by_cases hne : messages = []
  · subst hne
    simp only [true_or, iff_true]
    intro singles hsing
    cases hsing
    exact ⟨[], rfl, rfl, .refl b⟩
  · have hlim := checkBatchLimits_of_ok hne h
    have hcnt := ((checkBatchLimits_eq_ok_iff b messages).mp hlim).1
    simp only [hne, false_or]
    constructor
    · intro hsame
      obtain ⟨offsets, -, heach, -⟩ := hsame messages (List.forall₂_same.mpr fun _ _ => ⟨rfl, rfl⟩)
      exact ((roomForEach_of_ok heach).resolve_left hne).2
    · intro hmemy singles hsing
      have hroom : RoomForEach b singles :=
        RoomForEach.of_sameContent (.inr ⟨hcnt, hmemy⟩) hsing
      rw [writeBatch_of_ok hne hlim, writeEach_of_room hroom, ← hsing.length_eq]
      exact ⟨_, rfl, rfl, sameState_appended (.refl b) hsing⟩

/-- Ten bytes of memory, and a message of ten bytes before one without payload. -/
def fullBeforeLast : MemoryBackend × List Message :=
  (withConfig { maxMessages := some 5, maxMemory := some 10 },
    [⟨1, List.replicate 10 0, 0⟩, ⟨2, [], 0⟩])

theorem batch_eq_sequence_tenBytes :
    (fullBeforeLast.1.writeBatch [⟨1, List.replicate 9 0, 0⟩, ⟨2, [0], 0⟩]).2.isOk ∧
      BatchEqualsSequence fullBeforeLast.1 [⟨1, List.replicate 9 0, 0⟩, ⟨2, [0], 0⟩] := by
  refine ⟨by decide, (batch_eq_sequence_iff _ _ (by decide)).mpr (.inr ?_)⟩
  simp [fullBeforeLast, withConfig, payload]

/-- The batch is accepted as a whole, its second message alone is not. -/
theorem batch_ne_sequence :
    (fullBeforeLast.1.writeBatch fullBeforeLast.2).2 = .ok [0, 1] ∧
      (fullBeforeLast.1.writeEach fullBeforeLast.2).2 = .error (.capacityExceeded 10 10) ∧
      ¬ BatchEqualsSequence fullBeforeLast.1 fullBeforeLast.2 := by
  have heach : (fullBeforeLast.1.writeEach fullBeforeLast.2).2 =
      .error (.capacityExceeded 10 10) := by rfl
  refine ⟨rfl, heach, fun h => ?_⟩
  obtain ⟨offsets, -, hok, -⟩ := h fullBeforeLast.2 (List.forall₂_same.mpr fun _ _ => ⟨rfl, rfl⟩)
  rw [heach] at hok
  cases hok

end MemoryBackend

end Kaelix.Storage.Backends
