import Kaelix.Storage.Segments.Recovery

/-!
# Recovery of any file

What `recover_segment` does on a file of arbitrary content.

Where the search finds nothing it does not end: it comes back to the last three bytes again and
again, or subtracts three from fewer.  Only before the last byte of the file there is nothing to
search.
-/

namespace Kaelix.Storage.Segments

open Lib Lib.BigEndian

/-! ### Reading an entry -/

variable {size : Nat} {entry : StorageEntry}

section

variable {lz4 : Lz4} {file : Bytes} {offset : Nat} {len : Nat} {what : String} {data : Bytes}

theorem readExact_eq_ok (h : readExact file offset len what = .ok data) :
    len ≤ file.length - offset ∧ data = (file.drop offset).take len := by
  unfold readExact at h
  split at h
  · next hle => exact ⟨hle, (Except.ok.inj h).symm⟩
  · cases h

private theorem readExact_part (start : Nat)
    (h : readExact file (offset + start) len what = .ok data)
    (hsize : start + len ≤ size) :
    readExact ((file.drop offset).take size) start len what = .ok data := by
  obtain ⟨hle, rfl⟩ := readExact_eq_ok h
  rw [readExact, if_pos, List.drop_take, List.drop_drop, List.take_take,
    Nat.min_eq_left (by omega)]
  rw [List.length_take, List.length_drop]
  omega

private theorem bind_eq_ok {α β : Type} {x : Outcome α} {f : α → Outcome β} {b : β}
    (h : x >>= f = .ok b) : ∃ a, x = .ok a ∧ f a = .ok b := by
  cases x with
  | error => cases h
  | ok a => exact ⟨a, rfl, h⟩

private theorem readStored_part (h : readStored lz4 (readExact file) offset = .ok (data, size)) :
    4 ≤ size ∧ size ≤ file.length - offset ∧
      readStored lz4 (readExact ((file.drop offset).take size)) 0 = .ok (data, size) := by
  unfold readStored at h ⊢
  obtain ⟨header, hhdr, h⟩ := bind_eq_ok h
  have hlen := (readExact_eq_ok hhdr).1
  dsimp only at h
  split at h
  · next hcompressed =>
      obtain ⟨compressed, hread, h⟩ := bind_eq_ok h
      split at h
      · next data' hdata =>
          obtain ⟨rfl, rfl⟩ := Prod.mk.inj (Except.ok.inj h)
          have hle := (readExact_eq_ok hread).1
          have hhdr' := readExact_part 0 hhdr
            (show 0 + 4 ≤ 4 + (u32.getLe header).toNat by omega)
          have hread' := readExact_part 4 hread (Nat.le_refl _)
          refine ⟨by omega, by omega, ?_⟩
          simp only [hhdr', hread', hdata, hcompressed, if_true, bind, Except.bind,
            Nat.zero_add]
      · cases h
  · next hplain =>
      obtain ⟨entryHeader, hent, h⟩ := bind_eq_ok h
      obtain ⟨payload, hpay, h⟩ := bind_eq_ok h
      obtain ⟨rfl, rfl⟩ := Prod.mk.inj (Except.ok.inj h)
      have hle := (readExact_eq_ok hent).1
      have hle' := (readExact_eq_ok hpay).1
      have hhdr' := readExact_part 0 hhdr
        (show 0 + 4 ≤ 4 + (24 + (u32.readLe 20 entryHeader).toNat) by omega)
      have hent' := readExact_part 4 hent
        (show 4 + 24 ≤ 4 + (24 + (u32.readLe 20 entryHeader).toNat) by omega)
      have hpay' := readExact_part 28 hpay
        (show 28 + _ ≤ 4 + (24 + (u32.readLe 20 entryHeader).toNat) by omega)
      refine ⟨by omega, by omega, ?_⟩
      simp only [hhdr', hent', hpay', hplain, if_false, bind, Except.bind,
        Nat.zero_add, Nat.reduceAdd]

theorem readDuringRecovery_part
    (h : readEntryAtOffsetDuringRecovery lz4 file offset = .ok (entry, size)) :
    4 ≤ size ∧ size ≤ file.length - offset ∧ entry.validate = .ok () ∧
      readEntryAtOffsetDuringRecovery lz4 ((file.drop offset).take size) 0 =
        .ok (entry, size) := by
  unfold readEntryAtOffsetDuringRecovery at h ⊢
  obtain ⟨⟨data, totalSize⟩, hst, h⟩ := bind_eq_ok h
  obtain ⟨found, hfound, h⟩ := bind_eq_ok h
  split at h
  · next hvalid =>
      obtain ⟨rfl, rfl⟩ := Prod.mk.inj (Except.ok.inj h)
      obtain ⟨hpos, hle, hpart⟩ := readStored_part hst
      refine ⟨hpos, hle, hvalid, ?_⟩
      simp only [hpart, hfound, hvalid, bind, Except.bind]
  · cases h

end

/-! ### The search for the next entry -/

variable {offset n fuel : Nat}

section

variable {lz4 : Lz4} {file : Bytes}

theorem firstReadable_append (xs ys : List Nat) :
    firstReadable lz4 file (xs ++ ys) =
      match firstReadable lz4 file xs with
      | .ok none => firstReadable lz4 file ys
      | found => found := by
  induction xs with
  | nil => rfl
  | cons x xs ih =>
    simp only [List.cons_append, firstReadable]
    rcases readEntryAtOffsetDuringRecovery lz4 file x with (e | message) | found
    · exact ih
    · rfl
    · rfl

theorem firstReadable_eq_some {xs : List Nat} (h : firstReadable lz4 file xs = .ok (some offset)) :
    offset ∈ xs ∧ ∃ entry size,
      readEntryAtOffsetDuringRecovery lz4 file offset = .ok (entry, size) := by
  induction xs with
  | nil => cases h
  | cons x xs ih =>
    rw [firstReadable] at h
    split at h
    · next found hfound =>
        cases h
        exact ⟨List.mem_cons_self, found.1, found.2, hfound⟩
    · cases h
    · exact (ih h).imp_left (List.mem_cons_of_mem x)

theorem firstReadable_eq_error {xs : List Nat} {failure : Failure}
    (h : firstReadable lz4 file xs = .error failure) : ∃ message, failure = .panic message := by
  induction xs with
  | nil => cases h
  | cons x xs ih =>
    rw [firstReadable] at h
    split at h
    · cases h
    · next message _ =>
        cases h
        exact ⟨message, rfl⟩
    · exact ih h

variable (lz4 file)

/-- The search of all offsets from `start` on that have four bytes before `stop`. -/
def searchTo (stop start : Nat) : Outcome (Option Nat) :=
  firstReadable lz4 file (List.range' start (stop - start - 3))

def searchLimit (file : Bytes) (offset : Nat) : Nat := min (offset + maxScanDistance) file.length

/-- What `find_next_valid_entry` looks for: the first offset behind the given one at which
an entry can be read. -/
def nextReadable (offset : Nat) : Outcome (Option Nat) :=
  searchTo lz4 file (searchLimit file offset) (offset + 1)

variable {lz4 file} {stop start : Nat}

theorem searchTo_of_le (h : stop ≤ start + 3) : searchTo lz4 file stop start = .ok none := by
  rw [searchTo, show stop - start - 3 = 0 by omega]
  rfl

theorem searchTo_split {k : Nat} (h : start + k + 3 ≤ stop) :
    searchTo lz4 file stop start =
      match firstReadable lz4 file (List.range' start k) with
      | .ok none => searchTo lz4 file stop (start + k)
      | found => found := by
  rw [searchTo, show stop - start - 3 = k + (stop - (start + k) - 3) by omega,
    ← List.range'_append_1, firstReadable_append]
  rfl

theorem scanRound_eq (overflowChecks : Bool) (hlt : start < stop) (hstop : stop ≤ file.length) :
    scanRound lz4 overflowChecks file stop start =
      match firstReadable lz4 file
          (List.range' start (min scanBufferSize (stop - start) - 3)) with
      | .ok (some offset) => .inr (.ok (some offset))
      | .error failure => .inr (.error failure)
      | .ok none =>
        if 3 ≤ min scanBufferSize (stop - start) then
          .inl (start + (min scanBufferSize (stop - start) - 3))
        else if overflowChecks then
          .inr (.error (.panic "attempt to subtract with overflow"))
        else
          .inl ((start + (2 ^ 64 + min scanBufferSize (stop - start) - 3)) % 2 ^ 64) := by
  have hread : readExact file start (min scanBufferSize (stop - start)) "scan buffer" =
      .ok ((file.drop start).take (min scanBufferSize (stop - start))) := if_pos (by omega)
  have hlen : ((file.drop start).take (min scanBufferSize (stop - start))).length =
      min scanBufferSize (stop - start) := by
    rw [List.length_take, List.length_drop]
    omega
  rcases hpart : firstReadable lz4 file
      (List.range' start (min scanBufferSize (stop - start) - 3)) with _ | (_ | _)
    <;> simp only [scanRound, hlt, if_true, hread, hlen, hpart]

def bufferSearch (lz4 : Lz4) (file : Bytes) (stop start : Nat) : Outcome (Option Nat) :=
  firstReadable lz4 file (List.range' start (min scanBufferSize (stop - start) - 3))

variable {overflowChecks : Bool} {next : Nat}

theorem scanRound_next (hstop : stop ≤ file.length)
    (h : scanRound lz4 overflowChecks file stop start = .inl next) :
    start < stop ∧ bufferSearch lz4 file stop start = .ok none ∧
      (3 ≤ min scanBufferSize (stop - start) ∧
          next = start + (min scanBufferSize (stop - start) - 3) ∨
        min scanBufferSize (stop - start) < 3 ∧ overflowChecks = false ∧
          next = (start + (2 ^ 64 + min scanBufferSize (stop - start) - 3)) % 2 ^ 64) := by
  have hlt : start < stop := by
    by_contra hge
    rw [scanRound, if_neg hge] at h
    cases h
  rw [scanRound_eq overflowChecks hlt hstop] at h
  split at h
  · cases h
  · cases h
  · next hpart =>
      refine ⟨hlt, hpart, ?_⟩
      split at h
      · next hle => exact .inl ⟨hle, (Sum.inl.inj h).symm⟩
      · next hsh =>
          split at h
          · cases h
          · next hchecks =>
              exact .inr ⟨by omega, by simpa using hchecks, (Sum.inl.inj h).symm⟩

variable {found : Outcome (Option Nat)}

theorem scanRound_done (hstop : stop ≤ file.length)
    (h : scanRound lz4 overflowChecks file stop start = .inr found) :
    stop ≤ start ∧ found = .ok none ∨
      (∃ offset, bufferSearch lz4 file stop start = .ok (some offset) ∧
        found = .ok (some offset)) ∨
      ∃ message, found = .error (.panic message) := by
  by_cases hlt : start < stop
  · rw [scanRound_eq overflowChecks hlt hstop] at h
    split at h
    · next offset hpart => exact .inr (.inl ⟨offset, hpart, (Sum.inr.inj h).symm⟩)
    · next failure hpart =>
        obtain ⟨message, rfl⟩ := firstReadable_eq_error hpart
        exact .inr (.inr ⟨message, (Sum.inr.inj h).symm⟩)
    · split at h
      · cases h
      · split at h
        · exact .inr (.inr ⟨_, (Sum.inr.inj h).symm⟩)
        · cases h
  · rw [scanRound, if_neg hlt] at h
    exact .inl ⟨by omega, (Sum.inr.inj h).symm⟩

theorem bufferSearch_eq_some (h : bufferSearch lz4 file stop start = .ok (some offset)) :
    start ≤ offset ∧ offset + 4 ≤ stop ∧ 3 ≤ min scanBufferSize (stop - start) ∧
      ∃ entry size, readEntryAtOffsetDuringRecovery lz4 file offset = .ok (entry, size) := by
  obtain ⟨hmem, hread⟩ := firstReadable_eq_some h
  rw [List.mem_range'_1] at hmem
  exact ⟨hmem.1, by omega, by omega, hread⟩

private theorem searchTo_eq (h : 3 ≤ min scanBufferSize (stop - start)) :
    searchTo lz4 file stop start =
      match bufferSearch lz4 file stop start with
      | .ok none =>
        searchTo lz4 file stop (start + (min scanBufferSize (stop - start) - 3))
      | found => found :=
  searchTo_split (by omega)

private theorem iterate_scanRound (overflowChecks : Bool) (hstop : stop ≤ file.length)
    (hn : stop - start ≤ n) (hfound : searchTo lz4 file stop start ≠ .ok none) :
    Loop.iterate (scanRound lz4 overflowChecks file stop) n start =
      some (searchTo lz4 file stop start) := by
  have hbuf : scanBufferSize = 4096 := rfl
  induction n generalizing start with
  | zero => exact absurd (searchTo_of_le (by omega)) hfound
  | succ n ih =>
    have hlt : start + 3 < stop := by
      by_contra hge
      exact hfound (searchTo_of_le (by omega))
    rw [searchTo_eq (by omega)] at hfound ⊢
    rw [Loop.iterate, scanRound_eq overflowChecks (by omega) hstop]
    unfold bufferSearch at hfound ⊢
    rcases hpart : firstReadable lz4 file
      (List.range' start (min scanBufferSize (stop - start) - 3)) with failure | (_ | offset)
    · rfl
    · rw [hpart] at hfound
      dsimp only at hfound ⊢
      rw [if_pos (by omega)]
      exact ih (by omega) hfound
    · rfl

private theorem exits_scanRound (hstop : stop ≤ file.length)
    (h : Loop.Exits (scanRound lz4 true file stop) start found)
    (hpanic : ∀ message, found ≠ .error (.panic message)) :
    found = searchTo lz4 file stop start ∧ (found = .ok none → stop ≤ start) := by
  induction h with
  | @done start found hdone =>
    obtain ⟨hle, rfl⟩ | ⟨offset, hpart, rfl⟩ | ⟨message, rfl⟩ := scanRound_done hstop hdone
    · exact ⟨(searchTo_of_le (by omega)).symm, fun _ => hle⟩
    · rw [searchTo_eq (bufferSearch_eq_some hpart).2.2.1, hpart]
      exact ⟨rfl, fun h => by cases h⟩
    · exact absurd rfl (hpanic message)
  | @next start start' found hnext _ ih =>
    obtain ⟨hfound, hnone⟩ := ih hpanic
    obtain ⟨hlt, hpart, ⟨hlen, rfl⟩ | ⟨-, hchecks, -⟩⟩ := scanRound_next hstop hnext
    · rw [searchTo_eq hlen, hpart]
      exact ⟨hfound, fun h => absurd (hnone h) (by omega)⟩
    · cases hchecks

theorem scanRound_finds (hstop : stop ≤ file.length) (hsize : file.length < 2 ^ 64)
    (h : Loop.Exits (scanRound lz4 overflowChecks file stop) start (.ok (some offset))) :
    start ≤ offset ∧ offset + 4 ≤ stop ∧ ∃ entry size,
      readEntryAtOffsetDuringRecovery lz4 file offset = .ok (entry, size) := by
  have hbuf : scanBufferSize = 4096 := rfl
  generalize hfound : Except.ok (some offset) = found at h
  induction h with
  | @done start found hdone =>
    subst hfound
    obtain ⟨-, hnone⟩ | ⟨offset', hpart, hsome⟩ | ⟨message, hpanic⟩ := scanRound_done hstop hdone
    · cases hnone
    · cases hsome
      obtain ⟨hle, hend, -, hread⟩ := bufferSearch_eq_some hpart
      exact ⟨hle, hend, hread⟩
    · cases hpanic
  | @next start start' found hnext _ ih =>
    obtain ⟨hle, hend, hread⟩ := ih hfound
    obtain ⟨hlt, -, ⟨hlen, rfl⟩ | ⟨hsh, -, rfl⟩⟩ := scanRound_next hstop hnext
    · exact ⟨by omega, hend, hread⟩
    · omega

theorem nextReadable_eq_some (h : nextReadable lz4 file offset = .ok (some next)) :
    offset < next ∧ next + 4 ≤ file.length := by
  have hmem := (firstReadable_eq_some h).1
  have hlim : searchLimit file offset ≤ file.length := Nat.min_le_right _ _
  rw [List.mem_range'_1] at hmem
  omega

theorem findNextValidEntry_of_readable (overflowChecks : Bool) (hfuel : file.length ≤ fuel)
    (h : nextReadable lz4 file offset = .ok (some next)) :
    findNextValidEntry lz4 overflowChecks fuel file offset file.length =
      some (.ok (some next)) := by
  have hlim : searchLimit file offset ≤ file.length := Nat.min_le_right _ _
  have hfound : searchTo lz4 file (searchLimit file offset) (offset + 1) ≠ .ok none := by
    intro hnone
    cases hnone.symm.trans h
  rw [← h]
  exact iterate_scanRound overflowChecks hlim (by omega) hfound

theorem findNextValidEntry_last (overflowChecks : Bool) (hfuel : 0 < fuel)
    (h : offset + 1 = file.length) :
    findNextValidEntry lz4 overflowChecks fuel file offset file.length = some (.ok none) := by
  obtain ⟨fuel, rfl⟩ : ∃ n, fuel = n + 1 := ⟨fuel - 1, by omega⟩
  rw [findNextValidEntry, Loop.iterate, scanRound, if_neg (by omega)]

theorem findNextValidEntry_eq
    (h : findNextValidEntry lz4 true fuel file offset file.length = some found)
    (hpanic : ∀ message, found ≠ .error (.panic message)) :
    found = nextReadable lz4 file offset ∧
      (found = .ok none → file.length ≤ offset + 1) := by
  obtain ⟨hfound, hnone⟩ :=
    exits_scanRound (Nat.min_le_right _ _) (Loop.exits_of_iterate h) hpanic
  refine ⟨hfound, fun h => ?_⟩
  have hle := hnone h
  have hdistance : maxScanDistance = 1024 * 1024 := rfl
  omega

theorem findNextValidEntry_error {failure : Failure}
    (h : findNextValidEntry lz4 overflowChecks fuel file offset file.length =
      some (.error failure)) : ∃ message, failure = .panic message := by
  have hexits := Loop.exits_of_iterate h
  generalize hfound : Except.error failure = found at hexits
  generalize offset + 1 = start at hexits
  induction hexits with
  | done hdone =>
    subst hfound
    obtain ⟨-, hnone⟩ | ⟨offset, -, hsome⟩ | ⟨message, hpanic⟩ :=
      scanRound_done (Nat.min_le_right _ _) hdone
    · cases hnone
    · cases hsome
    · exact ⟨message, Except.error.inj hpanic⟩
  | next _ _ ih => exact ih hfound

theorem findNextValidEntry_finds (hsize : file.length < 2 ^ 64)
    (h : findNextValidEntry lz4 overflowChecks fuel file offset file.length =
      some (.ok (some next))) : offset < next ∧ next + 4 ≤ file.length := by
  obtain ⟨hle, hend, -⟩ := scanRound_finds (Nat.min_le_right _ _) hsize (Loop.exits_of_iterate h)
  exact ⟨hle, hend.trans (Nat.min_le_right _ _)⟩

end

/-! ### Where the loop of recovery goes -/

variable {overflowChecks : Bool}

section

variable {lz4 : Lz4} {file : Bytes} {r : Recovery}

/-- The recovery works on the whole file. -/
structure OnFile (file : Bytes) (r : Recovery) : Prop where
  contents : r.segment.file = file
  fileSize : r.segment.fileSize = file.length

theorem onFile_unrecovered (id : Nat) (file : Bytes) (c : Bool) :
    OnFile file { segment := .unrecovered id file c, info := {}, currentOffset := 0 } :=
  ⟨rfl, rfl⟩

theorem OnFile.accept (h : OnFile file r) (entry : StorageEntry) (size : Nat) :
    OnFile file (r.accept entry size) := ⟨h.contents, h.fileSize⟩

theorem OnFile.skip (h : OnFile file r) (next : Nat) : OnFile file (r.skip next) :=
  ⟨h.contents, h.fileSize⟩

variable {fuel : Nat}

theorem OnFile.round_next (h : OnFile file r) {r' : Recovery}
    (hround : r.round lz4 overflowChecks fuel = .inl r') :
    (∃ entry size,
        readEntryAtOffsetDuringRecovery lz4 file r.currentOffset = .ok (entry, size) ∧
        r' = r.accept entry size) ∨
      ∃ e next, readEntryAtOffsetDuringRecovery lz4 file r.currentOffset = .error (.error e) ∧
        findNextValidEntry lz4 overflowChecks fuel file r.currentOffset file.length =
          some (.ok (some next)) ∧
        r' = r.skip next := by
  rw [Recovery.round, h.contents, h.fileSize] at hround
  split at hround
  · split at hround
    · next entry size hread => exact .inl ⟨entry, size, hread, (Sum.inl.inj hround).symm⟩
    · cases hround
    · next e hread =>
        split at hround
        · cases hround
        · cases hround
        · next next hfind =>
            exact .inr ⟨e, next, hread, hfind, (Sum.inl.inj hround).symm⟩
        · cases hround
  · cases hround

variable {outcome : Outcome Recovery}

theorem OnFile.round_done (h : OnFile file r)
    (hround : r.round lz4 overflowChecks fuel = .inr (some outcome)) :
    file.length ≤ r.currentOffset ∧ outcome = .ok r ∨
      (∃ e, r.currentOffset < file.length ∧
        readEntryAtOffsetDuringRecovery lz4 file r.currentOffset = .error (.error e) ∧
        findNextValidEntry lz4 overflowChecks fuel file r.currentOffset file.length =
          some (.ok none) ∧
        outcome = .ok (r.abandon file.length)) ∨
      ∃ message, outcome = .error (.panic message) := by
  rw [Recovery.round, h.contents, h.fileSize] at hround
  split at hround
  · next hlt =>
      split at hround
      · cases hround
      · exact .inr (.inr ⟨_, (Option.some.inj (Sum.inr.inj hround)).symm⟩)
      · next e hread =>
          split at hround
          · cases hround
          · next failure hfind =>
              obtain ⟨message, rfl⟩ := findNextValidEntry_error hfind
              exact .inr (.inr ⟨message, (Option.some.inj (Sum.inr.inj hround)).symm⟩)
          · cases hround
          · next hfind =>
              exact .inr (.inl ⟨e, hlt, hread, hfind,
                (Option.some.inj (Sum.inr.inj hround)).symm⟩)
  · next hge => exact .inl ⟨by omega, (Option.some.inj (Sum.inr.inj hround)).symm⟩

variable (lz4 file)

/-- From an entry to the offset behind it, and from anything else to the next offset at
which an entry can be read. -/
inductive Advance : Nat → Nat → Prop
  | entry {offset : Nat} {entry : StorageEntry} {size : Nat}
      (h : readEntryAtOffsetDuringRecovery lz4 file offset = .ok (entry, size)) :
      Advance offset (offset + size)
  | skip {offset next : Nat} {e : StorageError}
      (h : readEntryAtOffsetDuringRecovery lz4 file offset = .error (.error e))
      (hnext : nextReadable lz4 file offset = .ok (some next)) : Advance offset next

/-- The offsets that recovery comes to. -/
def Reached : Nat → Prop := Relation.ReflTransGen (Advance lz4 file) 0

/-- Recovery goes on from an offset: there is an entry, or one behind it within reach of
the search, or only a single byte is left. -/
def Clear (offset : Nat) : Prop :=
  (∃ entry size, readEntryAtOffsetDuringRecovery lz4 file offset = .ok (entry, size)) ∨
    (∃ e, readEntryAtOffsetDuringRecovery lz4 file offset = .error (.error e)) ∧
      (offset + 1 = file.length ∨ ∃ next, nextReadable lz4 file offset = .ok (some next))

variable {lz4 file}

variable (h : OnFile file r)
include h

section

variable (hpanic : ∀ message, outcome ≠ .error (.panic message))
include hpanic

section

variable (hexits : Loop.Exits (Recovery.round lz4 true fuel) r (some outcome))
include hexits

theorem OnFile.advance (hadvance : Advance lz4 file r.currentOffset offset) :
    ∃ r', OnFile file r' ∧ r'.currentOffset = offset ∧
      Loop.Exits (Recovery.round lz4 true fuel) r' (some outcome) := by
  cases hexits with
  | done hdone =>
    obtain ⟨hle, -⟩ | ⟨e, -, hread, hfind, -⟩ | ⟨message, rfl⟩ := h.round_done hdone
    · cases hadvance with
      | entry hread =>
        have := readDuringRecovery_part hread
        omega
      | skip _ hnext =>
        have := nextReadable_eq_some hnext
        omega
    · have hnone := (findNextValidEntry_eq hfind (by simp)).1
      cases hadvance with
      | entry hread' => cases hread.symm.trans hread'
      | skip _ hnext => cases hnone.trans hnext
    · exact absurd rfl (hpanic message)
  | next hnext hrest =>
    obtain ⟨entry, size, hread, rfl⟩ | ⟨e, next, hread, hfind, rfl⟩ := h.round_next hnext
    · refine ⟨_, h.accept entry size, ?_, hrest⟩
      cases hadvance with
      | entry hread' =>
        cases hread.symm.trans hread'
        rfl
      | skip hread' => cases hread.symm.trans hread'
    · refine ⟨_, h.skip next, ?_, hrest⟩
      have hsome := (findNextValidEntry_eq hfind (by simp)).1
      cases hadvance with
      | entry hread' => cases hread.symm.trans hread'
      | skip _ hnext =>
        cases hsome.trans hnext
        rfl

theorem OnFile.clear (hlt : r.currentOffset < file.length) : Clear lz4 file r.currentOffset := by
  cases hexits with
  | done hdone =>
    obtain ⟨hle, -⟩ | ⟨e, -, hread, hfind, -⟩ | ⟨message, rfl⟩ := h.round_done hdone
    · omega
    · have hlast := (findNextValidEntry_eq hfind (by simp)).2 rfl
      exact .inr ⟨⟨e, hread⟩, .inl (by omega)⟩
    · exact absurd rfl (hpanic message)
  | next hnext =>
    obtain ⟨entry, size, hread, -⟩ | ⟨e, next, hread, hfind, -⟩ := h.round_next hnext
    · exact .inl ⟨entry, size, hread⟩
    · have hsome := (findNextValidEntry_eq hfind (by simp)).1
      exact .inr ⟨⟨e, hread⟩, .inr ⟨next, hsome.symm⟩⟩

theorem OnFile.visits (hpath : Relation.ReflTransGen (Advance lz4 file) r.currentOffset offset) :
    ∃ r', OnFile file r' ∧ r'.currentOffset = offset ∧
      Loop.Exits (Recovery.round lz4 true fuel) r' (some outcome) := by
  induction hpath with
  | refl => exact ⟨r, h, rfl, hexits⟩
  | tail _ hstep ih =>
    obtain ⟨r', h', rfl, hexits'⟩ := ih
    exact h'.advance hpanic hexits' hstep

end

end

theorem OnFile.round_entry (overflowChecks : Bool) (fuel : Nat)
    (hread : readEntryAtOffsetDuringRecovery lz4 file r.currentOffset = .ok (entry, size)) :
    r.round lz4 overflowChecks fuel = .inl (r.accept entry size) := by
  obtain ⟨hpos, hle, -⟩ := readDuringRecovery_part hread
  have hlt : r.currentOffset < file.length := by omega
  simp only [Recovery.round, h.contents, h.fileSize, hlt, if_true, hread]

theorem OnFile.round_scan {e : StorageError} {found : Option Nat}
    (hlt : r.currentOffset < file.length)
    (hread : readEntryAtOffsetDuringRecovery lz4 file r.currentOffset = .error (.error e))
    (hfind : findNextValidEntry lz4 overflowChecks fuel file r.currentOffset file.length =
      some (.ok found)) :
    r.round lz4 overflowChecks fuel =
      match found with
      | some next => .inl (r.skip next)
      | none => .inr (some (.ok (r.abandon file.length))) := by
  simp only [Recovery.round, h.contents, h.fileSize, hlt, if_true, hread, hfind]
  cases found <;> rfl

theorem OnFile.iterate_of_clear (overflowChecks : Bool) (hfuel : file.length < fuel)
    (hn : file.length - r.currentOffset < n)
    (hclear : ∀ offset, Relation.ReflTransGen (Advance lz4 file) r.currentOffset offset →
      offset < file.length → Clear lz4 file offset) :
    ∃ r', Loop.iterate (Recovery.round lz4 overflowChecks fuel) n r = some (some (.ok r')) := by
  induction n generalizing r with
  | zero => omega
  | succ n ih =>
    rw [Loop.iterate]
    by_cases hlt : r.currentOffset < file.length
    · rcases hclear _ .refl hlt with
        ⟨entry, size, hread⟩ | ⟨⟨e, hread⟩, hlast | ⟨next, hnext⟩⟩
      · obtain ⟨hpos, hle, -⟩ := readDuringRecovery_part hread
        rw [h.round_entry overflowChecks fuel hread]
        refine ih (h.accept entry size) ?_ fun offset hpath =>
          hclear offset (.head (.entry hread) hpath)
        change file.length - (r.currentOffset + size) < n
        omega
      · rw [h.round_scan hlt hread (findNextValidEntry_last overflowChecks (by omega) hlast)]
        exact ⟨_, rfl⟩
      · have hahead := nextReadable_eq_some hnext
        rw [h.round_scan hlt hread (findNextValidEntry_of_readable overflowChecks hfuel.le hnext)]
        refine ih (h.skip next) ?_ fun offset hpath =>
          hclear offset (.head (.skip hread hnext) hpath)
        change file.length - next < n
        omega
    · rw [Recovery.round, h.contents, h.fileSize, if_neg hlt]
      exact ⟨_, rfl⟩

end

/-! ### On which files recovery returns -/

/-- The recovery ends without a panic. -/
def Finishes (lz4 : Lz4) (overflowChecks : Bool) (s : StorageSegment) : Prop :=
  ∃ fuel outcome, s.recoverSegment lz4 overflowChecks fuel = some outcome ∧
    ∀ message, outcome ≠ .error (.panic message)

theorem exits_of_recoverSegment {lz4 : Lz4} {s : StorageSegment}
    {outcome : Outcome StorageSegment}
    (h : s.recoverSegment lz4 overflowChecks fuel = some outcome) :
    ∃ ended : Outcome Recovery,
      Loop.iterate (Recovery.round lz4 overflowChecks fuel) fuel
        { segment := s, info := {}, currentOffset := 0 } = some (some ended) ∧
      outcome = ended.map fun r => { r.segment with recoveryInfo := r.info } := by
  obtain ⟨ended, hended, rfl⟩ := Option.map_eq_some_iff.mp h
  exact ⟨ended, Option.join_eq_some_iff.mp hended, rfl⟩

theorem Finishes.clear {lz4 : Lz4} {id : Nat} {file : Bytes} {c : Bool}
    (h : Finishes lz4 true (.unrecovered id file c)) (hreach : Reached lz4 file offset)
    (hlt : offset < file.length) : Clear lz4 file offset := by
  obtain ⟨fuel, outcome, hrun, hpanic⟩ := h
  obtain ⟨ended, hiter, rfl⟩ := exits_of_recoverSegment hrun
  have hended : ∀ message, ended ≠ .error (.panic message) := by
    rintro message rfl
    exact hpanic message rfl
  obtain ⟨r, honFile, rfl, hexits⟩ := (onFile_unrecovered id file c).visits hended
    (Loop.exits_of_iterate hiter) hreach
  exact honFile.clear hended hexits hlt

/-- With overflow checks, recovery returns on exactly those files in which every offset it
comes to is clear: it holds an entry, or the search behind it finds one, or it is the
last byte. -/
theorem recovery_finishes_iff (lz4 : Lz4) (id : Nat) (file : Bytes) (c : Bool) :
    Finishes lz4 true (.unrecovered id file c) ↔
      ∀ offset, Reached lz4 file offset → offset < file.length → Clear lz4 file offset := by
  constructor
  · intro h offset hreach hlt
    exact h.clear hreach hlt
  · intro hclear
    obtain ⟨r, hiter⟩ : ∃ r, Loop.iterate (Recovery.round lz4 true (file.length + 1))
        (file.length + 1)
        { segment := .unrecovered id file c, info := {}, currentOffset := 0 } =
          some (some (.ok r)) :=
      (onFile_unrecovered id file c).iterate_of_clear true (Nat.lt_succ_self _)
        (Nat.lt_succ_self _) hclear
    refine ⟨file.length + 1, .ok { r.segment with recoveryInfo := r.info }, ?_, ?_⟩
    · rw [StorageSegment.recoverSegment, hiter]
      rfl
    · intro message h
      cases h

/-- Four bytes that are no entry: the search comes back to the last three of them for
ever.  With two bytes it subtracts three from one. -/
theorem recovery_hangs_or_underflows :
    ¬ Finishes storing true (.unrecovered 1 [1, 0, 0, 0] true) ∧
      StorageSegment.recoverSegment storing true 2 (.unrecovered 1 [1, 0] true) =
        some (.error (.panic "attempt to subtract with overflow")) := by
  refine ⟨fun h => ?_, rfl⟩
  have hread : readEntryAtOffsetDuringRecovery storing [1, 0, 0, 0] 0 =
      ioError "Failed to read compressed data: early eof" := rfl
  have hnone : nextReadable storing [1, 0, 0, 0] 0 = .ok none := searchTo_of_le (by decide)
  rcases h.clear .refl (by decide) with ⟨entry, size, hent⟩ | ⟨-, hlast | ⟨next, hnext⟩⟩
  · cases hread.symm.trans hent
  · cases hlast
  · cases hnone.symm.trans hnext

end Kaelix.Storage.Segments
