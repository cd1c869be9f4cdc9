import Kaelix.Storage.Segments.Accounting

/-!
# Which appends survive reopening

`append_entry` and `append_batch` write any entry; recovery takes an entry only if it passes
`validate`, which asks for a sequence and a timestamp other than zero and for a payload of at most
100 MiB.  An entry that does not is not found at its place, and what is found instead depends on
the bytes around it.
-/

namespace Kaelix.Storage.Segments

open Lib Lib.BigEndian

/-- An entry that fits into memory and that LZ4 gives back, with a compressed length that
the entry's header can hold. -/
structure Compressible (lz4 : Lz4) (e : StorageEntry) : Prop where
  fits : 24 + e.payload.length < 2 ^ 64
  inverse : lz4.decompress (lz4.compress e.serialize) = .ok e.serialize
  pos : 0 < (lz4.compress e.serialize).length
  lt : (lz4.compress e.serialize).length < 2 ^ 32

variable {lz4 : Lz4} {e : StorageEntry}

theorem Compressible.valid_of_read (h : Compressible lz4 e) {before after : Bytes}
    {found : StorageEntry × Nat}
    (hread : readEntryAtOffsetDuringRecovery lz4 (before ++ (diskBytes lz4 true e ++ after))
      before.length = .ok found) : e.validate = .ok () := by
  have hst := readStored_compressed (serves_readExact
    (before ++ (diskBytes lz4 true e ++ after))) h.inverse h.pos h.lt
  have hent := StorageEntry.deserialize_serialize e h.fits
  simp only [readEntryAtOffsetDuringRecovery, hst, hent, bind, Except.bind,
    e.validate_stored] at hread
  cases hvalid : e.validate with
  | ok => rfl
  | error =>
    rw [hvalid] at hread
    cases hread

variable {overflowChecks mapped c : Bool} {id offset : Nat}

theorem readable_of_openExisting {fuel : Nat} {file : Bytes} {opened : StorageSegment}
    (hsize : file.length < 2 ^ 64)
    (hopen : StorageSegment.openExisting lz4 overflowChecks fuel mapped id file c =
      some (.ok opened))
    {sequence : UInt64}
    (hget : (opened.sequenceIndex.lookup sequence).map IndexEntry.offset = some offset) :
    ∃ entry size, readEntryAtOffsetDuringRecovery lz4 file offset = .ok (entry, size) ∧
      entry.sequence = sequence := by
  unfold StorageSegment.openExisting at hopen
  dsimp only at hopen
  split at hopen
  · obtain ⟨outcome, hrun, hmap⟩ := Option.map_eq_some_iff.mp hopen
    cases outcome with
    | error => cases hmap
    | ok =>
      obtain rfl := Except.ok.inj hmap
      obtain ⟨r, h, -, rfl⟩ := tallied_of_recoverSegment hsize hrun
      have hplace := (h.catalog.lookup sequence).symm.trans hget
      obtain ⟨l₁, l₂, hsplit, -⟩ := List.lookup_eq_some_iff.mp hplace
      have hmem : (sequence, offset) ∈ (StorageSegment.recoveredExtents lz4 overflowChecks
          fuel (.unrecovered id file c)).map fun x => (x.entry.sequence, x.offset) := by
        rw [← List.mem_reverse, hsplit]
        simp
      obtain ⟨x, hx, heq⟩ := List.mem_map.mp hmem
      obtain ⟨rfl, rfl⟩ := Prod.mk.inj heq
      exact ⟨x.entry, x.size, h.found x hx, rfl⟩
  · obtain rfl := Except.ok.inj (Option.some.inj hopen)
    cases hget

/-- After a history of appends to a fresh compressed segment, `open_existing` returns and
finds each entry's sequence at the entry's place, unless a later append reused it. -/
def Survives (lz4 : Lz4) (overflowChecks mapped : Bool) (id : Nat) (c : Bool)
    (calls : List AppendCall) : Prop :=
  ∃ s, (StorageSegment.createNew id [] true).appendAll lz4 calls = .ok s ∧
    ∃ fuel opened, StorageSegment.openExisting lz4 overflowChecks fuel mapped id s.file c =
        some (.ok opened) ∧
      ∀ before e after, appended calls = before ++ e :: after →
        e.sequence ∉ after.map StorageEntry.sequence →
        (opened.sequenceIndex.lookup e.sequence).map IndexEntry.offset =
          some (diskImage lz4 true before).length

private theorem survives_of_storable (overflowChecks mapped : Bool) (id : Nat) (c : Bool)
    {calls : List AppendCall} (h : ∀ e ∈ appended calls, Storable lz4 e) :
    Survives lz4 overflowChecks mapped id c calls := by
  obtain ⟨s, hs, hwr⟩ := (Written.createNew lz4 id [] true).appendAll calls
  have hfile : s.file = diskImage lz4 true (appended calls) := hwr.file
  obtain ⟨opened, hopen, hopened⟩ :=
    openExisting_diskImage h overflowChecks mapped id c (Nat.lt_succ_self _)
  refine ⟨s, hs, _, opened, by rw [hfile]; exact hopen, ?_⟩
  intro before e after hcalls hlast
  rw [hopened.catalog.lookup, hcalls, lookup_placements 0 before e after hlast, Nat.zero_add]

private theorem valid_of_survives (he : Compressible lz4 e)
    (h : Survives lz4 overflowChecks mapped id c [.entry e]) : e.validate = .ok () := by
  obtain ⟨s, hs, fuel, opened, hopen, hindex⟩ := h
  obtain ⟨s', hs', hwr⟩ := (Written.createNew lz4 id [] true).appendAll [.entry e]
  obtain rfl := Except.ok.inj (hs'.symm.trans hs)
  have hfile : s'.file = [] ++ (diskBytes lz4 true e ++ []) := hwr.file
  have hsize : s'.file.length < 2 ^ 64 := by
    have hlt := he.lt
    rw [hfile]
    simp only [diskBytes, if_true, List.nil_append, List.append_nil, List.length_append,
      Word.length_putLe, u32_bytes]
    omega
  obtain ⟨entry, size, hread, -⟩ :=
    readable_of_openExisting hsize hopen (hindex [] e [] rfl (by simp))
  rw [hfile] at hread
  exact he.valid_of_read hread

/-- Every append of entries that a writer admits survives reopening exactly if it admits
only entries that pass `validate`. -/
theorem appends_survive_iff (lz4 : Lz4) (overflowChecks mapped : Bool) (id : Nat) (c : Bool)
    (Admits : StorageEntry → Prop) (hcodec : ∀ e, Admits e → Compressible lz4 e) :
    (∀ calls, (∀ e ∈ appended calls, Admits e) →
        Survives lz4 overflowChecks mapped id c calls) ↔
      ∀ e, Admits e → e.validate = .ok () := by
  constructor
  · intro h e he
    refine valid_of_survives (hcodec e he) (h [.entry e] ?_)
    intro e' he'
    obtain rfl : e' = e := by simpa [appended, AppendCall.entries] using he'
    exact he
  · intro h calls hcalls
    refine survives_of_storable overflowChecks mapped id c fun e he => ?_
    have hcmp := hcodec e (hcalls e he)
    exact ⟨hcmp.inverse, hcmp.pos, hcmp.lt, h e (hcalls e he)⟩

theorem appends_survive_sample :
    Survives storing true true 1 true [.entry (.new 42 7 []), .batch [.new 42 7 []]] :=
  (appends_survive_iff storing true true 1 true (fun e => e = .new 42 7 [])
    (by
      rintro e rfl
      exact ⟨by decide, storing_inverse _, by decide, by decide⟩)).mpr
    (by
      rintro e rfl
      decide) _ (by simp [appended, AppendCall.entries])

def untimedAppends : List AppendCall := [.entry (.new 1 0 [7]), .entry (.new 2 9 [])]

private theorem untimed_unreadable {size : Nat} {entry : StorageEntry}
    (h : readEntryAtOffsetDuringRecovery storing (diskImage storing true (appended untimedAppends))
      offset = .ok (entry, size)) : entry.sequence ≠ 1 := by
  have hall : ((List.range 65).all fun offset =>
      (readEntryAtOffsetDuringRecovery storing (diskImage storing true
        (appended untimedAppends)) offset).toOption.all fun read => read.1.sequence != 1) =
      true := by decide +kernel
  obtain ⟨hpos, hle, -⟩ := readDuringRecovery_part h
  have hlen : (diskImage storing true (appended untimedAppends)).length = 65 := by decide
  have hoff := List.all_eq_true.mp hall offset (List.mem_range.mpr (by omega))
  rw [h] at hoff
  simpa [Except.toOption] using hoff

/-- Both appends return, and so does `open_existing`, but the first sequence is not in the
index again. -/
theorem untimed_append_lost :
    ∃ s, (StorageSegment.createNew 1 [] true).appendAll storing untimedAppends = .ok s ∧
      (∃ opened, StorageSegment.openExisting storing true 99 true 1 s.file true =
        some (.ok opened)) ∧
      ∀ fuel opened, StorageSegment.openExisting storing true fuel true 1 s.file true =
        some (.ok opened) → AList.lookup 1 opened.sequenceIndex = none := by
  obtain ⟨s, hs, hwr⟩ := (Written.createNew storing 1 [] true).appendAll untimedAppends
  have hfile : s.file = diskImage storing true (appended untimedAppends) := hwr.file
  refine ⟨s, hs, ?_, ?_⟩
  · rw [hfile]
    exact ⟨_, rfl⟩
  · intro fuel opened hopen
    rw [hfile] at hopen
    cases hget : AList.lookup 1 opened.sequenceIndex with
    | none => rfl
    | some =>
      obtain ⟨entry, size, hread, hseq⟩ :=
        readable_of_openExisting (by decide) hopen (congrArg (Option.map _) hget)
      exact absurd hseq (untimed_unreadable hread)

end Kaelix.Storage.Segments
