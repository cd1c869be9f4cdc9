import Mathlib.Logic.Function.Basic

/-!
# Bit sets in packed words

The bits are packed 64 to a word.  Setting a bit is an `OR` with its mask, testing one an
`AND`.  A Bloom filter sets some bits for every element, and an element may be in it if all
its bits are set.  As no bit is ever cleared, the bits of every element that was put in stay
set (`hasAll_setAll`, `hasAll_setAll_of_hasAll`).
-/

namespace Kaelix.Lib.BloomFilter

/-- The words that hold the bits. -/
abbrev Bits (words : Nat) := Fin words → BitVec 64

variable {words : Nat}

/-- The word with bit `b` only. -/
def mask (b : Fin 64) : BitVec 64 := 1#64 <<< b.val

variable (bits : Bits words)

/-- The words with one more bit set. -/
def setBit (p : Fin words × Fin 64) : Bits words :=
  Function.update bits p.1 (bits p.1 ||| mask p.2)

/-- The bit is set. -/
def hasBit (p : Fin words × Fin 64) : Bool := bits p.1 &&& mask p.2 != 0#64

variable (ps : List (Fin words × Fin 64))

/-- All bits of an element set. -/
def setAll : Bits words :=
  ps.foldl setBit bits

/-- All bits of an element are set. -/
def hasAll : Bool := ps.all (hasBit bits)

private theorem getLsbD_mask (b : Fin 64) (i : Nat) : (mask b).getLsbD i = decide (b.val = i) := by
  rw [mask, ← BitVec.twoPow_eq, BitVec.getLsbD_twoPow]
  simp

private theorem hasBit_eq (p : Fin words × Fin 64) : hasBit bits p = (bits p.1).getLsbD p.2 := by
  have hbit : (bits p.1 &&& mask p.2).getLsbD p.2 = (bits p.1).getLsbD p.2 := by
    rw [BitVec.getLsbD_and, getLsbD_mask, decide_eq_true rfl, Bool.and_true]
  cases hset : (bits p.1).getLsbD p.2 with
  | true =>
    rw [hset] at hbit
    rw [hasBit, bne_iff_ne]
    intro hzero
    rw [hzero, BitVec.getLsbD_zero] at hbit
    cases hbit
  | false =>
    -- no other bit is in the mask
    have hzero : bits p.1 &&& mask p.2 = 0#64 := by
      apply BitVec.eq_of_getLsbD_eq
      intro i _
      rw [BitVec.getLsbD_and, getLsbD_mask, BitVec.getLsbD_zero]
      by_cases hi : p.2.val = i
      · subst hi
        rw [hset, Bool.false_and]
      · rw [decide_eq_false hi, Bool.and_false]
    rw [hasBit, hzero]
    rfl

private theorem hasBit_setBit (p q : Fin words × Fin 64)
    (h : p = q ∨ hasBit bits q) : hasBit (setBit bits p) q := by
  rw [hasBit_eq] at h ⊢
  by_cases hword : q.1 = p.1
  · rw [setBit, hword, Function.update_self, BitVec.getLsbD_or, getLsbD_mask]
    rcases h with rfl | h
    · simp
    · rw [← hword, h, Bool.true_or]
  · rw [setBit, Function.update_of_ne hword]
    rcases h with rfl | h
    · exact absurd rfl hword
    · exact h

private theorem hasBit_setAll (bits : Bits words)
    (q : Fin words × Fin 64) (h : q ∈ ps ∨ hasBit bits q) : hasBit (setAll bits ps) q := by
  induction ps generalizing bits with
  | nil => exact h.resolve_left List.not_mem_nil
  | cons p ps ih =>
    apply ih
    rcases h with h | h
    · rcases List.mem_cons.mp h with rfl | h
      · exact .inr (hasBit_setBit bits q q (.inl rfl))
      · exact .inl h
    · exact .inr (hasBit_setBit bits p q (.inr h))

theorem hasAll_setAll : hasAll (setAll bits ps) ps :=
  List.all_eq_true.mpr fun q hq => hasBit_setAll ps bits q (.inl hq)

theorem hasAll_setAll_of_hasAll {bits : Bits words} (ps : List (Fin words × Fin 64))
    {qs : List (Fin words × Fin 64)} (h : hasAll bits qs) : hasAll (setAll bits ps) qs :=
  List.all_eq_true.mpr fun q hq =>
    hasBit_setAll ps bits q (.inr (List.all_eq_true.mp h q hq))

end Kaelix.Lib.BloomFilter
