import Kaelix.Lib.Overflow
import Mathlib.Data.List.Infix

/-!
# ASCII texts

Texts as lists of characters, with the operations of Rust's `str` as they are on ASCII: every
character is one byte, so that positions of characters are positions of bytes.
-/

namespace Kaelix.Lib.Ascii

/-- A text as its characters. -/
abbrev Text := List Char

/-- The ASCII white space. -/
def isWhitespace (c : Char) : Bool := (9 ≤ c.toNat && c.toNat ≤ 13) || c = ' '

/-- `str::trim`. -/
def trim (s : Text) : Text := ((s.dropWhile isWhitespace).reverse.dropWhile isWhitespace).reverse

/-- A line that ended with a line feed, without the carriage return before it. -/
def stripCarriageReturn (line : Text) : Text :=
  if line.getLast? = some '\r' then line.dropLast else line

/-- `str::lines`: what follows the last line feed is a line unless it is empty. -/
def lines (s : Text) : List Text :=
  let pieces := s.splitOn '\n'
  pieces.dropLast.map stripCarriageReturn ++ (pieces.getLast?.toList.filter (! ·.isEmpty))

/-- `str::rfind`: the last position at which the pattern occurs. -/
def rfind (pattern : Text) : Text → Option Nat
  | [] => if pattern.isEmpty then some 0 else none
  | c :: s =>
    match rfind pattern s with
    | some i => some (i + 1)
    | none => if pattern.isPrefixOf (c :: s) then some 0 else none

/-- `&s[start..stop]`, or the panic. -/
def slice (s : Text) (start stop : Nat) : Except Panic Text :=
  if start > stop then .error ⟨s!"begin <= end ({start} <= {stop}) when slicing"⟩
  else if stop > s.length then .error ⟨s!"byte index {stop} is out of bounds"⟩
  else .ok ((s.take stop).drop start)

/-- Why a text is no `u64`. -/
inductive ParseIntError where
  | empty | invalidDigit | posOverflow
  deriving DecidableEq

/-- The texts of `std`. -/
def ParseIntError.message : ParseIntError → String
  | .empty => "cannot parse integer from empty string"
  | .invalidDigit => "invalid digit found in string"
  | .posOverflow => "number too large to fit in target type"

/-- The digits from left to right, up to the first that is none or is one too many. -/
def parseDigits (n : Nat) : Text → Except ParseIntError Nat
  | [] => .ok n
  | c :: s =>
    if c.isDigit then
      let n := n * 10 + (c.toNat - '0'.toNat)
      if n < 2 ^ 64 then parseDigits n s else .error .posOverflow
    else .error .invalidDigit

/-- `str::parse::<u64>`. -/
def parse (s : Text) : Except ParseIntError Nat :=
  match s with
  | [] => .error .empty
  | ['+'] => .error .invalidDigit
  | '+' :: digits => parseDigits 0 digits
  | digits => parseDigits 0 digits

/-! ## Positions -/

variable {pattern s : Text} {i : Nat}

theorem prefix_of_rfind (h : rfind pattern s = some i) : pattern <+: s.drop i := by
  induction s generalizing i with
  | nil =>
    simp only [rfind] at h
    split at h
    · next hemp => simp [List.isEmpty_iff.mp hemp]
    · cases h
  | cons c s ih =>
    simp only [rfind] at h
    split at h
    · next j hj =>
        cases h
        simpa using ih hj
    · split at h
      · next hpre =>
          cases h
          simpa using hpre
      · cases h

private theorem le_rfind (hi : i ≤ s.length) (h : pattern <+: s.drop i) :
    ∃ j, i ≤ j ∧ rfind pattern s = some j := by
  induction s generalizing i with
  | nil =>
    have hi0 : i = 0 := by simpa using hi
    have hemp : pattern = [] := by simpa using h
    exact ⟨0, by omega, by simp [rfind, hemp]⟩
  | cons c s ih =>
    cases i with
    | zero =>
      simp only [rfind]
      split
      · exact ⟨_, Nat.zero_le _, rfl⟩
      · exact ⟨0, le_rfl, by simpa using h⟩
    | succ =>
      obtain ⟨j, hij, hj⟩ := ih (by simpa using hi) (by simpa using h)
      exact ⟨j + 1, by omega, by simp [rfind, hj]⟩

theorem rfind_isSome_iff (pattern s : Text) : (rfind pattern s).isSome ↔ pattern <:+: s := by
  constructor
  · intro h
    obtain ⟨i, hi⟩ := Option.isSome_iff_exists.mp h
    exact (prefix_of_rfind hi).isInfix.trans (List.drop_suffix i s).isInfix
  · rintro ⟨before, after, rfl⟩
    have hpre : pattern <+: (before ++ pattern ++ after).drop before.length := by
      simp [List.append_assoc]
    obtain ⟨j, -, hj⟩ := le_rfind (by simp) hpre
    rw [hj, Option.isSome_some]

theorem rfind_of_prefix {first : Text} (hfirst : first <+: pattern) (hne : pattern ≠ [])
    (h : rfind pattern s = some i) : ∃ j, i ≤ j ∧ rfind first s = some j := by
  have hpre := prefix_of_rfind h
  have hlen := hpre.length_le
  have hpos := List.length_pos_of_ne_nil hne
  rw [List.length_drop] at hlen
  exact le_rfind (by omega) (hfirst.trans hpre)

end Kaelix.Lib.Ascii
